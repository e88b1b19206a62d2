import Traceline.Evaluators.Theorems.Fragment

-- The two parsers read the same expression off the same lexemes.
namespace Agreement

open Predicates (Value Op Symbol)
open Conditions (Connective)

inductive Lexeme
  | symbol (s : Symbol)
  | lparen
  | rparen
  | path
  | constant (name : String) (value : Json)
  | number (raw : List Char) (value : Json)
  | string (quote : Char) (pieces : List Piece)
  deriving DecidableEq, Repr

def constants : List (String × Json) :=
  [("true", .bool true), ("false", .bool false), ("null", .null)]

namespace Lexeme

def condition_token : Lexeme → Conditions.Token
  | .symbol s          => .op s
  | .lparen            => .paren '('
  | .rparen            => .paren ')'
  | .path              => .ident "raw_value"
  | .constant name _   => .ident name
  | .number _ value    => .literal value
  | .string _ pieces   => .literal (.str (String.ofList (pieces.flatMap Piece.condition)))

def predicate_tokens (x : String) : Lexeme → List Predicates.Token
  | .symbol s          => [.op s]
  | .lparen            => [.lparen]
  | .rparen            => [.rparen]
  | .path              => [.ident "payload", .dot, .ident x]
  | .constant name _   => [.ident name]
  | .number _ value    => [.number value]
  | .string _ pieces   => [.string (String.ofList (pieces.flatMap Piece.predicate))]

end Lexeme

-- The tokens that the two lexers make of the same lexemes.
structure Reads (x : String) (ls : List Lexeme) (ts : Conditions.Tokens)
    (ts' : Predicates.Tokens) : Prop where
  condition : ts.map Prod.fst = ls.map Lexeme.condition_token ++ [.eof]
  predicate : ts'.map Prod.fst = ls.flatMap (Lexeme.predicate_tokens x) ++ [.eof]
  constants : ∀ name value, .constant name value ∈ ls → (name, value) ∈ constants

-- The name of a path segment, as `_parse_path` takes it.
structure Segment (x : String) : Prop where
  visible  : x.startsWith "_" = false
  reserved : x ∉ ["true", "false", "null"]

-- A node of a condition that means an expression.
def Means (c : Conditions.Node) (e : Expr) : Prop :=
  ∀ raw, c.evaluate (given raw) = e.eval raw

section Parsers

variable {py : Python} {text text' : List Char} {x : String} {n d : ℕ}

-- Two parsers that read the same expression off the same lexemes, of which there are at most so
-- many, and leave the same lexemes over.
def Agree (x : String) (n : ℕ)
    (f : (ts : Conditions.Tokens) → Except Conditions.Error (Conditions.Parsed ts.length))
    (g : (ts : Predicates.Tokens) → Except Predicates.Error (Predicates.Parsed ts.length)) :
    Prop :=
  ∀ ls ts ts', ls.length ≤ n → Reads x ls ts ts' → ∀ c p, f ts = .ok c → g ts' = .ok p →
    ∃ e ls', ls'.length < ls.length ∧ Reads x ls' c.rest p.rest ∧ Means c.node e ∧
      p.node = e.predicate x

theorem Reads.nil_inv {ts ts'} (h : Reads x [] ts ts') :
    ∃ i j, ts = [(.eof, i)] ∧ ts' = [(.eof, j)] := by
  have ⟨t, i, hi⟩ := List.map_eq_singleton_iff.mp h.condition
  have ⟨t', j, hj⟩ := List.map_eq_singleton_iff.mp h.predicate
  exact ⟨t.snd, t'.snd, by simp [i, ← hi], by simp [j, ← hj]⟩

theorem Reads.cons_inv {l : Lexeme} {ls ts ts'} (h : Reads x (l :: ls) ts ts') :
    ∃ i rest us rest', ts = (l.condition_token, i) :: rest ∧ ts' = us ++ rest' ∧
      us.map Prod.fst = l.predicate_tokens x ∧ Reads x ls rest rest' := by
  have ⟨t, rest, hts, ht, hrest⟩ := List.map_eq_cons_iff.mp h.condition
  have hp := h.predicate
  rw [List.flatMap_cons, List.append_assoc] at hp
  have ⟨us, rest', hts', hus, hrest'⟩ := List.map_eq_append_iff.mp hp
  refine ⟨t.snd, rest, us, rest', ?_, hts', hus, hrest, hrest', fun name v hm => ?_⟩
  · rw [hts, ← ht]
  · exact h.constants name v <| .tail _ hm

-- The tokens after a path do not go on with it.
theorem Reads.not_dot {ls ts ts'} (h : Reads x ls ts ts') :
    Predicates.parse_segments py text' ts' = .ok ([], ⟨ts', le_rfl⟩) := by
  cases ls with
  | nil      =>
    obtain ⟨i, j, rfl, rfl⟩ := h.nil_inv
    rfl
  | cons l ls =>
    obtain ⟨i, rest, us, rest', rfl, rfl, hus, -⟩ := h.cons_inv
    cases l <;> (
      obtain ⟨u, us, rfl, hu, -⟩ := List.map_eq_cons_iff.mp hus
      obtain ⟨tok, j⟩ := u
      cases hu
      rfl)

-- The tokens of a lexeme other than the path are one.
theorem single_token {us : Predicates.Tokens} {tok : Predicates.Token}
    (h : us.map Prod.fst = [tok]) : ∃ j, us = [(tok, j)] := by
  have ⟨t, ht, htok⟩ := List.map_eq_singleton_iff.mp h
  exact ⟨t.snd, by rw [ht, ← htok]⟩

theorem operand_agrees (hx : Segment x)
    (ih : ∀ m < n, ∀ d, Agree x m (Conditions.parse_or py text) (Predicates.parse_or py text' d)) :
    Agree x n (Conditions.parse_operand py text) (Predicates.parse_primary py text' d) := by
  intro ls ts ts' hn h c p hc hp
  cases ls with
  | nil       =>
    obtain ⟨i, j, rfl, rfl⟩ := h.nil_inv
    simp [Conditions.parse_operand] at hc
  | cons l ls =>
    obtain ⟨i, rest, us, rest', rfl, rfl, hus, hr⟩ := h.cons_inv
    cases l with
    | symbol s | rparen       => simp [Conditions.parse_operand, Lexeme.condition_token] at hc
    | number raw value        =>
      obtain ⟨j, rfl⟩ := single_token hus
      dsimp only [Lexeme.condition_token, List.cons_append, List.nil_append] at hc hp
      rw [Conditions.parse_operand] at hc
      rw [Predicates.parse_primary] at hp
      cases hc
      cases hp
      exact ⟨.value value, ls, Nat.lt_succ_self _, hr, fun _ => rfl, rfl⟩
    | string quote pieces     =>
      obtain ⟨j, rfl⟩ := single_token hus
      dsimp only [Lexeme.condition_token, List.cons_append, List.nil_append] at hc hp
      rw [Conditions.parse_operand] at hc
      rw [Predicates.parse_primary] at hp
      cases hc
      cases hp
      exact ⟨.string pieces, ls, Nat.lt_succ_self _, hr, fun _ => rfl, rfl⟩
    | constant name value     =>
      obtain ⟨j, rfl⟩ := single_token hus
      have hname := h.constants name value (.head _)
      dsimp only [Lexeme.condition_token, List.cons_append, List.nil_append] at hc hp
      rw [Conditions.parse_operand] at hc
      rw [Predicates.parse_primary] at hp
      refine ⟨.value value, ls, Nat.lt_succ_self _, ?_⟩
      simp only [constants, List.mem_cons, List.not_mem_nil, or_false, Prod.mk.injEq] at hname
      rcases hname with ⟨rfl, rfl⟩ | ⟨rfl, rfl⟩ | ⟨rfl, rfl⟩ <;> cases hc <;> cases hp <;>
        exact ⟨hr, fun _ => rfl, rfl⟩
    | path                    =>
      obtain ⟨⟨_, j₁⟩, us₁, rfl, ⟨⟩, hus₁⟩ := List.map_eq_cons_iff.mp hus
      obtain ⟨⟨_, j₂⟩, us₂, rfl, ⟨⟩, hus₂⟩ := List.map_eq_cons_iff.mp hus₁
      obtain ⟨j₃, rfl⟩ := single_token hus₂
      dsimp only [Lexeme.condition_token, List.cons_append, List.nil_append] at hc hp
      rw [Conditions.parse_operand] at hc
      rw [Predicates.parse_primary] at hp
      have hpath : Predicates.parse_path py text' "payload"
          ((.dot, j₂) :: (.ident x, j₃) :: rest') = .ok (.path .payload [x],
            ⟨rest', (Nat.le_succ _).trans (Nat.le_succ _)⟩) := by
        have hv : ¬ x.startsWith "_" := by
          rw [hx.visible]
          exact Bool.false_ne_true
        rw [Predicates.parse_path, if_neg (by decide +kernel)]
        simp only [Predicates.field?]
        rw [Predicates.parse_segments, if_neg hv, if_neg hx.reserved, hr.not_dot]
        rfl
      rw [hpath] at hp
      cases hc
      cases hp
      exact ⟨.path, ls, Nat.lt_succ_self _, hr, fun _ => rfl, rfl⟩
    | lparen                  =>
      obtain ⟨j, rfl⟩ := single_token hus
      dsimp only [Lexeme.condition_token, List.cons_append, List.nil_append] at hc hp
      rw [Conditions.parse_operand] at hc
      rw [Predicates.parse_primary] at hp
      obtain ⟨⟨node, after, hs⟩, hor, hc⟩ := Except.bind_eq_ok_iff.mp hc
      obtain ⟨_, -, hp⟩ := Except.bind_eq_ok_iff.mp hp
      obtain ⟨⟨node', after', hs'⟩, hor', hp⟩ := Except.bind_eq_ok_iff.mp hp
      obtain ⟨e, ls', hlt, hr', hm, he⟩ := ih ls.length hn _ ls _ _ le_rfl hr _ _ hor hor'
      cases ls' with
      | nil        =>
        obtain ⟨i, j, rfl, rfl⟩ := hr'.nil_inv
        cases hc
      | cons l ls' =>
        obtain ⟨i, last, us, last', rfl, rfl, hus, hlast⟩ := hr'.cons_inv
        cases l with
        | rparen =>
          obtain ⟨j, rfl⟩ := single_token hus
          cases hc
          cases hp
          exact ⟨e, ls', Nat.lt_succ_of_lt <| Nat.lt_of_succ_lt hlt, hlast, hm, he⟩
        | symbol _ | lparen | path | constant _ _ | number _ _ | string _ _ => cases hc

theorem comparison_agrees (ih : ∀ d, Agree x n (Conditions.parse_operand py text)
    (Predicates.parse_primary py text' d)) :
    Agree x n (Conditions.parse_comparison py text) (Predicates.parse_comparison py text' d) := by
  intro ls ts ts' hn h c p hc hp
  rw [Conditions.parse_comparison] at hc
  rw [Predicates.parse_comparison] at hp
  obtain ⟨⟨left, rest, hs⟩, hleft, hc⟩ := Except.bind_eq_ok_iff.mp hc
  obtain ⟨⟨left', rest', hs'⟩, hleft', hp⟩ := Except.bind_eq_ok_iff.mp hp
  have ⟨e, ls₁, hlt, hr, hm, he⟩ := ih d ls _ _ hn h _ _ hleft hleft'
  cases ls₁ with
  | nil        =>
    obtain ⟨i, j, rfl, rfl⟩ := hr.nil_inv
    cases hc
    cases hp
    exact ⟨e, [], hlt, hr, hm, he⟩
  | cons l ls₁ =>
    obtain ⟨i, after, us, after', rfl, rfl, hus, hr₁⟩ := hr.cons_inv
    cases l with
    | lparen | rparen | constant _ _ | number _ _ | string _ _ =>
      obtain ⟨j, rfl⟩ := single_token hus
      cases hc
      cases hp
      exact ⟨e, _, hlt, hr, hm, he⟩
    | path     =>
      obtain ⟨⟨_, j₁⟩, us₁, rfl, ⟨⟩, hus₁⟩ := List.map_eq_cons_iff.mp hus
      cases hc
      cases hp
      exact ⟨e, _, hlt, hr, hm, he⟩
    | symbol s =>
      obtain ⟨j, rfl⟩ := single_token hus
      dsimp only [Lexeme.condition_token, List.cons_append, List.nil_append] at hc hp
      cases hop : s.comparison? with
      | none    =>
        rw [hop] at hc hp
        cases hc
        cases hp
        exact ⟨e, _, hlt, hr, hm, he⟩
      | some op =>
        rw [hop] at hc hp
        obtain ⟨⟨right, last, hl⟩, hright, hc⟩ := Except.bind_eq_ok_iff.mp hc
        obtain ⟨⟨right', last', hl'⟩, hright', hp⟩ := Except.bind_eq_ok_iff.mp hp
        cases hc
        cases hp
        have hn₁ : ls₁.length ≤ n := le_of_lt <| Nat.lt_of_succ_lt <| hlt.trans_le hn
        have ⟨e', ls₂, hlt', hr₂, hm', he'⟩ := ih d ls₁ _ _ hn₁ hr₁ _ _ hright hright'
        refine ⟨.compare op e e', ls₂, hlt'.trans <| Nat.lt_of_succ_lt hlt, hr₂, fun raw => ?_, ?_⟩
        · exact congrArg₂ (Conditions.cond_compare op) (hm raw) (hm' raw)
        · exact congrArg₂ (Predicates.Node.compare op) he he'

-- Where the first lexeme is not an operator, neither is the first token.
theorem Reads.head_ne {ls ts ts'} (s : Symbol) (h : Reads x ls ts ts')
    (hl : ls.head? ≠ some (.symbol s)) :
    (∀ i rest, ts = (.op s, i) :: rest → False) ∧ ∀ j rest, ts' = (.op s, j) :: rest → False := by
  cases ls with
  | nil       =>
    obtain ⟨i, j, rfl, rfl⟩ := h.nil_inv
    exact ⟨nofun, nofun⟩
  | cons l ls =>
    obtain ⟨i, rest, us, rest', rfl, rfl, hus, -⟩ := h.cons_inv
    constructor
    case left =>
      intro i rest he
      cases l <;> cases he
      exact hl rfl
    case right =>
      intro j rest he
      cases l with
      | symbol s =>
        obtain ⟨j, rfl⟩ := single_token hus
        cases he
        exact hl rfl
      | lparen | rparen | path | constant _ _ | number _ _ | string _ _ =>
        obtain ⟨u, us₁, rfl, hu, -⟩ := List.map_eq_cons_iff.mp hus
        cases he
        cases hu

theorem not_agrees (ih : ∀ d, Agree x n (Conditions.parse_comparison py text)
    (Predicates.parse_comparison py text' d)) :
    Agree x n (Conditions.parse_not py text) (Predicates.parse_not py text' d) := by
  intro ls
  induction ls generalizing d with
  | nil            =>
    intro ts ts' hn h c p hc hp
    have ⟨hne, hne'⟩ := h.head_ne .not (by simp)
    rw [Conditions.parse_not.eq_2 _ _ _ hne] at hc
    rw [Predicates.parse_not.eq_2 _ _ _ _ hne'] at hp
    exact ih d [] _ _ hn h c p hc hp
  | cons l ls ihls =>
    intro ts ts' hn h c p hc hp
    by_cases hl : l = .symbol .not
    case neg =>
      have ⟨hne, hne'⟩ := h.head_ne .not (by simpa using hl)
      rw [Conditions.parse_not.eq_2 _ _ _ hne] at hc
      rw [Predicates.parse_not.eq_2 _ _ _ _ hne'] at hp
      exact ih d _ _ _ hn h c p hc hp
    case pos =>
      subst hl
      obtain ⟨i, rest, us, rest', rfl, rfl, hus, hr⟩ := h.cons_inv
      obtain ⟨j, rfl⟩ := single_token hus
      dsimp only [Lexeme.condition_token, List.cons_append, List.nil_append] at hc hp
      rw [Conditions.parse_not] at hc
      rw [Predicates.parse_not] at hp
      obtain ⟨⟨node, after, hs⟩, hnode, hc⟩ := Except.bind_eq_ok_iff.mp hc
      obtain ⟨_, -, hp⟩ := Except.bind_eq_ok_iff.mp hp
      obtain ⟨⟨node', after', hs'⟩, hnode', hp⟩ := Except.bind_eq_ok_iff.mp hp
      cases hc
      cases hp
      obtain ⟨e, ls', hlt, hr', hm, he⟩ := ihls _ _ (Nat.le_of_succ_le hn) hr _ _ hnode hnode'
      refine ⟨.not e, ls', Nat.lt_succ_of_lt hlt, hr', fun raw => ?_, ?_⟩
      · exact congrArg Conditions.cond_not (hm raw)
      · exact congrArg Predicates.Node.not he

-- What a loop over the operands of a connective adds to the expression it starts from.
def Chained (op : Connective) (e₀ : Expr) (nodes : List Conditions.Node) (e : Expr) : Prop :=
  nodes = [] ∧ e = e₀ ∨ nodes ≠ [] ∧ ∀ raw, Conditions.evaluate_children (given raw) op
    (op.combine op.unit (e₀.eval raw)) nodes = e.eval raw

theorem combine_unit {op : Connective} {a b : Value} :
    op.combine op.unit (op.combine a b) = op.combine a b := by
  cases op
  · unfold Connective.combine Connective.unit Conditions.cond_and
    dsimp only
    split
    · rfl
    · split <;> rfl
  · unfold Connective.combine Connective.unit Conditions.cond_or
    dsimp only
    split
    · rfl
    · split <;> rfl

theorem Chained.cons {op : Connective} {e₀ e₁ e : Expr} {node : Conditions.Node}
    {nodes : List Conditions.Node} (hm : Means node e₁)
    (h : Chained op (.connect op e₀ e₁) nodes e) : Chained op e₀ (node :: nodes) e := by
  refine .inr ⟨List.cons_ne_nil _ _, fun raw => ?_⟩
  rw [Conditions.evaluate_children, hm raw]
  cases h
  case inl h =>
    obtain ⟨rfl, rfl⟩ := h
    rfl
  case inr h =>
    have hw : (Expr.connect op e₀ e₁).eval raw =
        op.combine (op.combine op.unit (e₀.eval raw)) (e₁.eval raw) := rfl
    have hr := h.right raw
    rwa [hw, combine_unit] at hr

theorem Chained.means {op : Connective} {e₀ e : Expr} {node : Conditions.Node}
    {nodes : List Conditions.Node} (hm : Means node e₀) (h : Chained op e₀ nodes e) :
    Means (Conditions.connect op node nodes) e := by
  intro raw
  cases h
  case inl h =>
    obtain ⟨rfl, rfl⟩ := h
    exact hm raw
  case inr h =>
    rw [Conditions.connect, if_neg h.left, Conditions.Node.evaluate, Conditions.evaluate_children,
      hm raw]
    exact h.right raw

-- Two loops over the operands of a connective.
def LoopAgree (x : String) (n : ℕ) (op : Connective)
    (f : (ts : Conditions.Tokens) → Except Conditions.Error (Conditions.Operands (ts.length + 1)))
    (g : Predicates.Node → (ts : Predicates.Tokens) →
      Except Predicates.Error (Predicates.Parsed (ts.length + 1))) : Prop :=
  ∀ ls ts ts', ls.length ≤ n → Reads x ls ts ts' → ∀ e₀ o p, f ts = .ok o →
    g (e₀.predicate x) ts' = .ok p → ∃ e ls', ls'.length ≤ ls.length ∧ Reads x ls' o.rest p.rest ∧
      Chained op e₀ o.nodes e ∧ p.node = e.predicate x

theorem and_loop_agrees (ih : ∀ d, Agree x n (Conditions.parse_not py text)
    (Predicates.parse_not py text' d)) :
    LoopAgree x n .and (Conditions.and_loop py text) (Predicates.and_loop py text' d) := by
  intro ls
  induction hk : ls.length using Nat.strong_induction_on generalizing ls with
  | _ k ihk =>
    intro ts ts' hn h e₀ o p ho hp
    by_cases hl : ls.head? = some (.symbol .and)
    case neg =>
      have ⟨hne, hne'⟩ := h.head_ne .and hl
      rw [Conditions.and_loop.eq_2 _ _ _ hne] at ho
      rw [Predicates.and_loop.eq_2 _ _ _ _ _ hne'] at hp
      cases ho
      cases hp
      exact ⟨e₀, ls, hk.le, h, .inl ⟨rfl, rfl⟩, rfl⟩
    case pos =>
      obtain ⟨ls, rfl⟩ := List.head?_eq_some_iff.mp hl
      obtain ⟨i, rest, us, rest', rfl, rfl, hus, hr⟩ := h.cons_inv
      obtain ⟨j, rfl⟩ := single_token hus
      dsimp only [Lexeme.condition_token, List.cons_append, List.nil_append] at ho hp
      rw [Conditions.and_loop] at ho
      rw [Predicates.and_loop] at hp
      obtain ⟨⟨node, after, hs⟩, hnode, ho⟩ := Except.bind_eq_ok_iff.mp ho
      obtain ⟨⟨nodes, last, hl⟩, hloop, ho⟩ := Except.bind_eq_ok_iff.mp ho
      obtain ⟨⟨node', after', hs'⟩, hnode', hp⟩ := Except.bind_eq_ok_iff.mp hp
      obtain ⟨⟨tree, last', hl'⟩, hloop', hp⟩ := Except.bind_eq_ok_iff.mp hp
      cases ho
      cases hp
      rw [List.length_cons] at hk
      have hn' : ls.length ≤ n := by omega
      obtain ⟨e₁, ls₁, hlt, hr₁, hm, he₁⟩ := ih d ls _ _ hn' hr _ _ hnode hnode'
      subst he₁
      obtain ⟨e, ls₂, hle, hr₂, hch, he⟩ := ihk ls₁.length (by omega) ls₁ rfl _ _ (by omega) hr₁
        (.connect .and e₀ e₁) _ _ hloop hloop'
      exact ⟨e, ls₂, by omega, hr₂, hch.cons hm, he⟩

theorem or_loop_agrees (ih : ∀ d, Agree x n (Conditions.parse_and py text)
    (Predicates.parse_and py text' d)) :
    LoopAgree x n .or (Conditions.or_loop py text) (Predicates.or_loop py text' d) := by
  intro ls
  induction hk : ls.length using Nat.strong_induction_on generalizing ls with
  | _ k ihk =>
    intro ts ts' hn h e₀ o p ho hp
    by_cases hl : ls.head? = some (.symbol .or)
    case neg =>
      have ⟨hne, hne'⟩ := h.head_ne .or hl
      rw [Conditions.or_loop.eq_2 _ _ _ hne] at ho
      rw [Predicates.or_loop.eq_2 _ _ _ _ _ hne'] at hp
      cases ho
      cases hp
      exact ⟨e₀, ls, hk.le, h, .inl ⟨rfl, rfl⟩, rfl⟩
    case pos =>
      obtain ⟨ls, rfl⟩ := List.head?_eq_some_iff.mp hl
      obtain ⟨i, rest, us, rest', rfl, rfl, hus, hr⟩ := h.cons_inv
      obtain ⟨j, rfl⟩ := single_token hus
      dsimp only [Lexeme.condition_token, List.cons_append, List.nil_append] at ho hp
      rw [Conditions.or_loop] at ho
      rw [Predicates.or_loop] at hp
      obtain ⟨⟨node, after, hs⟩, hnode, ho⟩ := Except.bind_eq_ok_iff.mp ho
      obtain ⟨⟨nodes, last, hl⟩, hloop, ho⟩ := Except.bind_eq_ok_iff.mp ho
      obtain ⟨⟨node', after', hs'⟩, hnode', hp⟩ := Except.bind_eq_ok_iff.mp hp
      obtain ⟨⟨tree, last', hl'⟩, hloop', hp⟩ := Except.bind_eq_ok_iff.mp hp
      cases ho
      cases hp
      rw [List.length_cons] at hk
      have hn' : ls.length ≤ n := by omega
      obtain ⟨e₁, ls₁, hlt, hr₁, hm, he₁⟩ := ih d ls _ _ hn' hr _ _ hnode hnode'
      subst he₁
      obtain ⟨e, ls₂, hle, hr₂, hch, he⟩ := ihk ls₁.length (by omega) ls₁ rfl _ _ (by omega) hr₁
        (.connect .or e₀ e₁) _ _ hloop hloop'
      exact ⟨e, ls₂, by omega, hr₂, hch.cons hm, he⟩

theorem and_agrees (ih : ∀ d, Agree x n (Conditions.parse_not py text)
    (Predicates.parse_not py text' d)) :
    Agree x n (Conditions.parse_and py text) (Predicates.parse_and py text' d) := by
  intro ls ts ts' hn h c p hc hp
  rw [Conditions.parse_and] at hc
  rw [Predicates.parse_and] at hp
  obtain ⟨⟨node, after, hs⟩, hnode, hc⟩ := Except.bind_eq_ok_iff.mp hc
  obtain ⟨⟨nodes, last, hl⟩, hloop, hc⟩ := Except.bind_eq_ok_iff.mp hc
  obtain ⟨⟨node', after', hs'⟩, hnode', hp⟩ := Except.bind_eq_ok_iff.mp hp
  obtain ⟨⟨tree, last', hl'⟩, hloop', hp⟩ := Except.bind_eq_ok_iff.mp hp
  cases hc
  cases hp
  have ⟨e₀, ls₁, hlt, hr₁, hm, he₀⟩ := ih d ls _ _ hn h _ _ hnode hnode'
  subst he₀
  have ⟨e, ls₂, hle, hr₂, hch, he⟩ := and_loop_agrees ih ls₁ _ _ (by omega) hr₁ _ _ _ hloop hloop'
  exact ⟨e, ls₂, by omega, hr₂, hch.means hm, he⟩

theorem or_agrees (ih : ∀ d, Agree x n (Conditions.parse_and py text)
    (Predicates.parse_and py text' d)) :
    Agree x n (Conditions.parse_or py text) (Predicates.parse_or py text' d) := by
  intro ls ts ts' hn h c p hc hp
  rw [Conditions.parse_or] at hc
  rw [Predicates.parse_or] at hp
  obtain ⟨⟨node, after, hs⟩, hnode, hc⟩ := Except.bind_eq_ok_iff.mp hc
  obtain ⟨⟨nodes, last, hl⟩, hloop, hc⟩ := Except.bind_eq_ok_iff.mp hc
  obtain ⟨⟨node', after', hs'⟩, hnode', hp⟩ := Except.bind_eq_ok_iff.mp hp
  obtain ⟨⟨tree, last', hl'⟩, hloop', hp⟩ := Except.bind_eq_ok_iff.mp hp
  cases hc
  cases hp
  have ⟨e₀, ls₁, hlt, hr₁, hm, he₀⟩ := ih d ls _ _ hn h _ _ hnode hnode'
  subst he₀
  have ⟨e, ls₂, hle, hr₂, hch, he⟩ := or_loop_agrees ih ls₁ _ _ (by omega) hr₁ _ _ _ hloop hloop'
  exact ⟨e, ls₂, by omega, hr₂, hch.means hm, he⟩

-- The grammars of the two languages are the same.
theorem parsers_agree (hx : Segment x) :
    ∀ d, Agree x n (Conditions.parse_or py text) (Predicates.parse_or py text' d) := by
  induction n using Nat.strong_induction_on with
  | _ n ih =>
    exact fun _ => or_agrees fun _ => and_agrees fun _ => not_agrees fun _ =>
      comparison_agrees fun _ => operand_agrees hx fun m hm => ih m hm

theorem parse_agrees (hx : Segment x) {ls ts ts' c p} (h : Reads x ls ts ts')
    (hc : Conditions.parse py text ts = .ok c) (hp : Predicates.parse py text' ts' = .ok p) :
    ∃ e, Means c e ∧ p = e.predicate x := by
  obtain ⟨⟨node, rest, hs⟩, hor, hc⟩ := Except.bind_eq_ok_iff.mp hc
  obtain ⟨⟨node', rest', hs'⟩, hor', hp⟩ := Except.bind_eq_ok_iff.mp hp
  have ⟨e, _, _, _, hm, he⟩ := parsers_agree hx 0 ls _ _ le_rfl h _ _ hor hor'
  dsimp only at hc hp
  refine ⟨e, ?_, ?_⟩
  · split at hc
    · cases hc
      exact hm
    · cases hc
  · split at hp
    · cases hp
      exact he
    · cases hp

end Parsers

end Agreement
