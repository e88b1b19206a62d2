import Traceline.Evaluators.Condition
import Traceline.Library.Except

-- The condition language over `raw_value` beside the predicate language over `payload.x`.
namespace Agreement

open Predicates (Value Op Symbol as_truth)
open Conditions (Connective)
open Events

-- The pieces of a string literal both languages read: a character, an escape that both decode, one
-- that only a predicate decodes, and a code point.
inductive Piece
  | plain (c : Char)
  | escape (c d : Char)
  | control (c d : Char)
  | unicode (h₁ h₂ h₃ h₄ : Char)
  deriving DecidableEq, Repr

namespace Piece

def text : Piece → List Char
  | .plain c             => [c]
  | .escape c _          => ['\\', c]
  | .control c _         => ['\\', c]
  | .unicode h₁ h₂ h₃ h₄ => ['\\', 'u', h₁, h₂, h₃, h₄]

def condition : Piece → List Char
  | .escape _ d => [d]
  | piece       => piece.text

def predicate : Piece → List Char
  | .plain c             => [c]
  | .escape _ d          => [d]
  | .control _ d         => [d]
  | .unicode h₁ h₂ h₃ h₄ => [Char.ofNat (Predicates.hexValue [h₁, h₂, h₃, h₄])]

-- What may stand between two quotes of a kind.
def Within (quote : Char) : Piece → Prop
  | .plain c             => c ≠ quote ∧ c ≠ '\\'
  | .escape c d          => (c, d) ∈ Conditions.escapes
  | .control c d         => (c, d) ∈ [('b', '\x08'), ('f', '\x0c')]
  | .unicode h₁ h₂ h₃ h₄ => [h₁, h₂, h₃, h₄].all Predicates.isHex

-- Whether both languages read the same.
def alike : Piece → Bool
  | .plain _ | .escape _ _          => true
  | .control _ _ | .unicode _ _ _ _ => false

variable {p : Piece}

theorem predicate_eq (h : p.alike) : p.predicate = p.condition := by
  cases p with
  | plain _ | escape _ _          => rfl
  | control _ _ | unicode _ _ _ _ => cases h

theorem predicate_shorter (h : ¬ p.alike) : p.predicate.length < p.condition.length := by
  cases p with
  | plain _ | escape _ _ => exact absurd rfl h
  | control _ _          => exact Nat.lt_succ_self 1
  | unicode _ _ _ _      => exact Nat.lt_of_sub_eq_succ rfl

theorem predicate_length : p.predicate.length ≤ p.condition.length := by
  by_cases h : p.alike
  · rw [predicate_eq h]
  · exact le_of_lt <| predicate_shorter h

end Piece

-- An expression of the shared fragment.
inductive Expr
  | value (j : Json)
  | string (pieces : List Piece)
  | path
  | compare (op : Op) (left right : Expr)
  | connect (op : Connective) (left right : Expr)
  | not (child : Expr)

namespace Expr

def condition : Expr → Conditions.Node
  | .value j               => .literal j
  | .string pieces         => .literal (.str (String.ofList (pieces.flatMap Piece.condition)))
  | .path                  => .raw
  | .compare op left right => .compare op left.condition right.condition
  | .connect op left right => .bool op [left.condition, right.condition]
  | .not child             => .not child.condition

def predicate (x : String) : Expr → Predicates.Node
  | .value j                 => .literal j
  | .string pieces           => .literal (.str (String.ofList (pieces.flatMap Piece.predicate)))
  | .path                    => .path .payload [x]
  | .compare op left right   => .compare op (left.predicate x) (right.predicate x)
  | .connect .and left right => .and (left.predicate x) (right.predicate x)
  | .connect .or left right  => .or (left.predicate x) (right.predicate x)
  | .not child               => .not (child.predicate x)

def subexpressions : Expr → List Expr
  | .compare op left right =>
    .compare op left right :: left.subexpressions ++ right.subexpressions
  | .connect op left right =>
    .connect op left right :: left.subexpressions ++ right.subexpressions
  | .not child             => .not child :: child.subexpressions
  | e                      => [e]

-- Whether both languages read the same in every string.
def alike : Expr → Bool
  | .string pieces                            => pieces.all Piece.alike
  | .compare _ left right | .connect _ left right => left.alike && right.alike
  | .not child                                => child.alike
  | .value _ | .path                          => true

end Expr

-- The value of a path.
def given (raw : Option Json) : Value :=
  raw.elim .missing .json

def Expr.eval (raw : Option Json) (e : Expr) : Value :=
  e.condition.evaluate (given raw)

-- A value that a condition takes for a truth value it is not.
def Coerced (v : Value) : Prop :=
  as_truth v = none ∧ v ≠ .unknown

instance (v : Value) : Decidable (Coerced v) :=
  inferInstanceAs (Decidable (_ ∧ _))

-- A connective whose result hangs on such a value: no operand decides it, and none is unknown.
def Swayed (op : Connective) (a b : Value) : Prop :=
  (Coerced a ∨ Coerced b) ∧
    ∀ v, v = a ∨ v = b → v ≠ .unknown ∧ v ≠ ((!op.unit : Bool) : Value)

-- No connective of the expression is.
def Expr.Unswayed (raw : Option Json) : Expr → Prop
  | .connect op left right =>
    ¬ Swayed op (left.eval raw) (right.eval raw) ∧ left.Unswayed raw ∧ right.Unswayed raw
  | .not child             => ¬ Coerced (child.eval raw) ∧ child.Unswayed raw
  | .compare _ left right  => left.Unswayed raw ∧ right.Unswayed raw
  | _                      => True

-- The connective of the predicate language.
def bool_connective : Connective → Value → Value → Value
  | .and => Predicates.bool_and
  | .or  => Predicates.bool_or

section Values

variable {op : Connective} {a b : Value}

theorem as_truth_eq_some_iff {v : Bool} : as_truth a = some v ↔ a = v := by
  constructor
  · intro h
    cases a with
    | json j =>
      cases j with
      | bool w => cases h; rfl
      | null | int _ | float _ | str _ | arr _ | obj _ => cases h
    | missing | unknown | time _ | block _ => cases h
  · exact fun h => h ▸ rfl

theorem as_truth_bool (v : Bool) : as_truth v = some v :=
  rfl

theorem as_truth_unknown : as_truth .unknown = none :=
  rfl

theorem Coerced.ne (h : Coerced a) (v : Bool) : a ≠ v := by
  intro he
  rw [he] at h
  cases h.left

-- The four kinds of values a connective tells apart.
theorem truth_cases (a : Value) : a = (true : Bool) ∨ a = (false : Bool) ∨ a = .unknown ∨
    as_truth a = none ∧ a ≠ .unknown ∧ a ≠ (true : Bool) ∧ a ≠ (false : Bool) := by
  by_cases hu : a = .unknown
  · exact .inr <| .inr <| .inl hu
  · cases ht : as_truth a with
    | none   =>
      have hc : Coerced a := ⟨ht, hu⟩
      exact .inr <| .inr <| .inr ⟨rfl, hu, hc.ne true, hc.ne false⟩
    | some v =>
      rw [as_truth_eq_some_iff] at ht
      cases v
      · exact .inr <| .inl ht
      · exact .inl ht

-- The two connectives differ exactly where the condition is swayed.
theorem combine_eq_iff :
    op.combine (op.combine op.unit a) b = bool_connective op a b ↔ ¬ Swayed op a b := by
  cases op <;> obtain rfl | rfl | rfl | ha := truth_cases a <;>
    obtain rfl | rfl | rfl | hb := truth_cases b
  all_goals simp_all [Swayed, Coerced, as_truth_bool, as_truth_unknown, Conditions.cond_and,
    Conditions.cond_or, Connective.combine, Connective.unit, bool_connective, Predicates.bool_and,
    Predicates.bool_or]

theorem cond_not_eq_iff : Conditions.cond_not a = Predicates.bool_not a ↔ ¬ Coerced a := by
  obtain rfl | rfl | rfl | ha := truth_cases a
  · simp [Coerced, as_truth_bool, Conditions.cond_not, Predicates.bool_not, Conditions.truthy,
      Json.truthy]
  · simp [Coerced, as_truth_bool, Conditions.cond_not, Predicates.bool_not, Conditions.truthy,
      Json.truthy]
  · simp [Coerced, as_truth_unknown, Conditions.cond_not, Predicates.bool_not]
  · simp [Coerced, Conditions.cond_not, Predicates.bool_not, ha]

-- Values that come up in a condition: no instant, and no model.
def Plain (v : Value) : Prop :=
  v = .missing ∨ v = .unknown ∨ ∃ j, v = .json j

theorem cond_compare_eq (iso : String → Option Timestamp) {cmp : Op} (ha : Plain a)
    (hb : Plain b) : Predicates.compare iso cmp a b = .ok (Conditions.cond_compare cmp a b) := by
  have heq : Predicates.typed_eq iso a b = Conditions.typed_eq a b ∨ a = .missing ∨ b = .missing := by
    obtain rfl | rfl | ⟨x, rfl⟩ := ha <;> obtain rfl | rfl | ⟨y, rfl⟩ := hb <;>
      simp [Predicates.typed_eq, Conditions.typed_eq]
  have hord : Predicates.order iso a b = .ok (Conditions.order a b) := by
    obtain rfl | rfl | ⟨x, rfl⟩ := ha <;> obtain rfl | rfl | ⟨y, rfl⟩ := hb <;>
      simp [Predicates.order, Conditions.order]
  unfold Predicates.compare Conditions.cond_compare
  by_cases hm : a = .missing ∨ b = .missing
  · rw [if_pos hm, if_pos hm]
    split <;> rfl
  · rw [if_neg hm, if_neg hm]
    have heq := heq.resolve_right hm
    cases cmp with
    | eq => exact congrArg (fun v : Bool => Except.ok (v : Value)) heq
    | ne => exact congrArg (fun v : Bool => Except.ok ((!v : Bool) : Value)) heq
    | lt | le | gt | ge =>
      dsimp only
      rw [hord]
      cases Conditions.order a b <;> rfl

end Values

section Semantics

variable {iso : String → Option Timestamp} {x : String} {raw : Option Json} {ev : TraceEvent}
variable {e : Expr}

theorem compare_plain {cmp : Op} {a b : Value} : Plain (Conditions.cond_compare cmp a b) := by
  have hbool (v : Bool) : Plain v := .inr <| .inr ⟨_, rfl⟩
  unfold Conditions.cond_compare
  split
  · split
    · exact hbool true
    · exact .inr <| .inl rfl
  · split
    · exact hbool _
    · exact hbool _
    · split
      · exact .inr <| .inl rfl
      · exact hbool _

theorem combine_plain {op : Connective} {a b : Value} : Plain (op.combine a b) := by
  have hbool (v : Bool) : Plain v := .inr <| .inr ⟨_, rfl⟩
  cases op
  · unfold Connective.combine Conditions.cond_and
    dsimp only
    split
    · exact hbool false
    · split
      · exact .inr <| .inl rfl
      · exact hbool true
  · unfold Connective.combine Conditions.cond_or
    dsimp only
    split
    · exact hbool true
    · split
      · exact .inr <| .inl rfl
      · exact hbool false

theorem eval_plain : Plain (e.eval raw) := by
  cases e with
  | value j | string ps => exact .inr <| .inr ⟨_, rfl⟩
  | path                =>
    cases raw with
    | none   => exact .inl rfl
    | some j => exact .inr <| .inr ⟨j, rfl⟩
  | compare op l r      => exact compare_plain
  | connect op l r      => exact combine_plain
  | not child           =>
    rw [Expr.eval, Expr.condition, Conditions.Node.evaluate, Conditions.cond_not]
    split
    · exact .inr <| .inl rfl
    · exact .inr <| .inr ⟨_, rfl⟩

theorem flatMap_length {pieces : List Piece} :
    (pieces.flatMap Piece.predicate).length ≤ (pieces.flatMap Piece.condition).length := by
  induction pieces with
  | nil          => exact le_rfl
  | cons p ps ih =>
    rw [List.flatMap_cons, List.flatMap_cons, List.length_append, List.length_append]
    exact Nat.add_le_add Piece.predicate_length ih

-- A string reads the same in both languages where each of its pieces does.
theorem flatMap_eq_iff {pieces : List Piece} :
    pieces.flatMap Piece.predicate = pieces.flatMap Piece.condition ↔ pieces.all Piece.alike := by
  induction pieces with
  | nil          => exact ⟨fun _ => rfl, fun _ => rfl⟩
  | cons p ps ih =>
    rw [List.flatMap_cons, List.flatMap_cons, List.all_cons, Bool.and_eq_true, ← ih]
    by_cases h : p.alike
    · rw [Piece.predicate_eq h, List.append_cancel_left_eq]
      exact ⟨fun he => ⟨h, he⟩, And.right⟩
    · refine ⟨fun he => absurd (congrArg List.length he) (ne_of_lt ?_), fun he => absurd he.left h⟩
      rw [List.length_append, List.length_append]
      exact Nat.add_lt_add_of_lt_of_le (Piece.predicate_shorter h) flatMap_length

-- Both languages give an expression the same value.
def Same (iso : String → Option Timestamp) (x : String) (raw : Option Json) (ev : TraceEvent)
    (e : Expr) : Prop :=
  (e.predicate x).evaluate iso ev = .ok (e.eval raw)

theorem mem_self : e ∈ e.subexpressions := by
  cases e <;> exact .head _

theorem same_compare {cmp : Op} {l r : Expr} (hl : Same iso x raw ev l)
    (hr : Same iso x raw ev r) : Same iso x raw ev (.compare cmp l r) := by
  rw [Same, Expr.predicate, Predicates.Node.evaluate, hl, hr]
  exact cond_compare_eq iso eval_plain eval_plain

theorem same_connect_iff {op : Connective} {l r : Expr} (hl : Same iso x raw ev l)
    (hr : Same iso x raw ev r) : Same iso x raw ev (.connect op l r) ↔
      ¬ Swayed op (l.eval raw) (r.eval raw) := by
  rw [← combine_eq_iff]
  cases op <;> rw [Same, Expr.predicate, Predicates.Node.evaluate, hl, hr] <;>
    exact Except.ok.injEq _ _ |>.to_iff.trans eq_comm

theorem same_not_iff {child : Expr} (hc : Same iso x raw ev child) :
    Same iso x raw ev (.not child) ↔ ¬ Coerced (child.eval raw) := by
  rw [← cond_not_eq_iff, Same, Expr.predicate, Predicates.Node.evaluate, hc]
  exact Except.ok.injEq _ _ |>.to_iff.trans eq_comm

-- Both languages give every subexpression the same value where its strings read alike and no
-- connective is swayed.
theorem same_iff (hv : Predicates.resolve ev .payload [x] = given raw) :
    (∀ s ∈ e.subexpressions, Same iso x raw ev s) ↔ e.alike ∧ e.Unswayed raw := by
  induction e with
  | value j             =>
    refine ⟨fun _ => ⟨rfl, trivial⟩, fun _ s hs => ?_⟩
    rw [List.mem_singleton.mp hs]
    rfl
  | path                =>
    refine ⟨fun _ => ⟨rfl, trivial⟩, fun _ s hs => ?_⟩
    rw [List.mem_singleton.mp hs]
    exact congrArg Except.ok hv
  | string ps           =>
    have hiff : Same iso x raw ev (.string ps) ↔ ps.all Piece.alike := by
      rw [← flatMap_eq_iff]
      simp [Same, Expr.predicate, Expr.eval, Expr.condition, Predicates.Node.evaluate,
        Conditions.Node.evaluate, String.ofList_inj]
    simpa [Expr.subexpressions, Expr.alike, Expr.Unswayed] using hiff
  | compare cmp l r hl hr =>
    simp only [Expr.subexpressions, Expr.alike, Expr.Unswayed, Bool.and_eq_true, List.cons_append,
      List.mem_cons, List.mem_append, forall_eq, or_imp, forall_and]
    rw [hl, hr]
    constructor
    case mp  => exact fun ⟨_, hl, hr⟩ => ⟨⟨hl.left, hr.left⟩, hl.right, hr.right⟩
    case mpr =>
      intro ⟨⟨hal, har⟩, hul, hur⟩
      have hsl := hl.mpr ⟨hal, hul⟩ l mem_self
      have hsr := hr.mpr ⟨har, hur⟩ r mem_self
      exact ⟨same_compare hsl hsr, ⟨hal, hul⟩, har, hur⟩
  | connect op l r hl hr  =>
    simp only [Expr.subexpressions, Expr.alike, Expr.Unswayed, Bool.and_eq_true, List.cons_append,
      List.mem_cons, List.mem_append, forall_eq, or_imp, forall_and]
    rw [hl, hr]
    constructor
    case mp  =>
      intro ⟨hs, hl', hr'⟩
      have hsl := hl.mpr hl' l mem_self
      have hsr := hr.mpr hr' r mem_self
      exact ⟨⟨hl'.left, hr'.left⟩, (same_connect_iff hsl hsr).mp hs, hl'.right, hr'.right⟩
    case mpr =>
      intro ⟨⟨hal, har⟩, hs, hul, hur⟩
      have hsl := hl.mpr ⟨hal, hul⟩ l mem_self
      have hsr := hr.mpr ⟨har, hur⟩ r mem_self
      exact ⟨(same_connect_iff hsl hsr).mpr hs, ⟨hal, hul⟩, har, hur⟩
  | not child ih        =>
    simp only [Expr.subexpressions, Expr.alike, Expr.Unswayed, List.mem_cons, forall_eq_or_imp]
    rw [ih]
    constructor
    case mp  =>
      intro ⟨hs, hc⟩
      exact ⟨hc.left, (same_not_iff <| ih.mpr hc child mem_self).mp hs, hc.right⟩
    case mpr =>
      intro ⟨ha, hs, hu⟩
      exact ⟨(same_not_iff <| ih.mpr ⟨ha, hu⟩ child mem_self).mpr hs, ha, hu⟩

end Semantics

end Agreement
