import Traceline.Predicates.Parser

-- The language of `scoring.condition`, a predicate over `raw_value`.
namespace Conditions

open Predicates (Value Op Symbol)

inductive Connective
  | and
  | or
  deriving DecidableEq, Repr

inductive Node
  | literal (value : Json)
  | raw
  | compare (op : Op) (left right : Node)
  | bool (op : Connective) (children : List Node)
  | not (child : Node)

section Evaluation

-- `_typed_eq`
def typed_eq : Value → Value → Bool
  | .json a,  .json b  => Predicates.json_eq a b
  | .time a,  .time b  => Predicates.time_eq a b
  | .block a, .block b => Predicates.block_eq a b
  | .unknown, .unknown => true
  | _,        _        => false

-- The orderings of two values, of which neither is a bool.
def order : Value → Value → Option Int
  | .json a, .json b => Predicates.json_order a b
  | _,       _       => none

-- `_cond_compare`
def cond_compare (op : Op) (a b : Value) : Value :=
  if a = .missing ∨ b = .missing then
    if op = .eq ∧ (a = .json .null ∨ b = .json .null) then true else .unknown
  else
    match op with
    | .eq => typed_eq a b
    | .ne => !typed_eq a b
    | op  =>
      match order a b with
      | none   => .unknown
      | some n => op.holds n

-- `_cond_and`, which takes every value but a bool and the unknown one for true.
def cond_and (a b : Value) : Value :=
  if a = (false : Bool) ∨ b = (false : Bool) then false
  else if a = .unknown ∨ b = .unknown then .unknown
  else true

-- `_cond_or`, which takes every such value for false.
def cond_or (a b : Value) : Value :=
  if a = (true : Bool) ∨ b = (true : Bool) then true
  else if a = .unknown ∨ b = .unknown then .unknown
  else false

-- `bool(value)`. The marker of a missing value is an object like any other.
def truthy : Value → Bool
  | .json j => j.truthy
  | _       => true

def cond_not (a : Value) : Value :=
  if a = .unknown then .unknown else !truthy a

def Connective.unit : Connective → Bool
  | .and => true
  | .or  => false

def Connective.combine : Connective → Value → Value → Value
  | .and => cond_and
  | .or  => cond_or

mutual

def Node.evaluate (raw : Value) : Node → Value
  | .literal value         => .json value
  | .raw                   => raw
  | .compare op left right => cond_compare op (left.evaluate raw) (right.evaluate raw)
  | .bool op children      => evaluate_children raw op op.unit children
  | .not child             => cond_not (child.evaluate raw)

def evaluate_children (raw : Value) (op : Connective) (result : Value) : List Node → Value
  | []                => result
  | child :: children =>
    evaluate_children raw op (op.combine result (child.evaluate raw)) children

end

-- `_Condition.evaluate`
def evaluate (raw : Option Json) (node : Node) : Bool :=
  node.evaluate (raw.elim .missing .json) = .json (.bool true)

end Evaluation

-- ConditionError, and the ValueError of a number that does not read.
inductive Error
  | condition (text : List Char) (position : ℕ) (message : String)
  | value (message : String)
  deriving DecidableEq, Repr

inductive Token
  | op (symbol : Symbol)
  | paren (c : Char)
  | literal (value : Json)
  | ident (name : String)
  | eof
  deriving DecidableEq, Repr

def Token.value : Token → Json
  | .op symbol     => .str symbol.toString
  | .paren c       => .str (String.singleton c)
  | .literal value => value
  | .ident name    => .str name
  | .eof           => .null

abbrev Tokens := List (Token × ℕ)

section Lexer

variable (py : Python) (text : List Char)

-- The escapes that stand for another character. A backslash before anything else is itself.
def escapes : List (Char × Char) :=
  [('\\', '\\'), ('"', '"'), ('\'', '\''), ('n', '\n'), ('t', '\t'), ('r', '\r')]

-- `_scan_string`, after the opening quote at `start`.
def scan_string (quote : Char) (start : ℕ) : List Char → Except Error (List Char × ℕ)
  | []        => .error <| .condition text start "unterminated string literal"
  | c :: rest =>
    if c = quote then .ok ([], 1)
    else
      match rest with
      | []          => .error <| .condition text start "unterminated string literal"
      | esc :: next =>
        match if c = '\\' then escapes.lookup esc else none with
        | some d => do
          let (out, n) ← scan_string quote start next
          return (d :: out, n + 2)
        | none   => do
          let (out, n) ← scan_string quote start (esc :: next)
          return (c :: out, n + 1)

-- `_scan_number`, which knows no exponents.
def scan_number (cs : List Char) : ℕ × Bool :=
  let i := if cs.head? = some '-' then 1 else 0
  let i := i + Predicates.digits py (cs.drop i)
  if (cs.drop i).head? = some '.' then (i + 1 + Predicates.digits py (cs.drop (i + 1)), true)
  else (i, false)

def read_number (raw : List Char) (is_float : Bool) : Except Error Json :=
  if is_float then (py.float raw |>.map Json.float).mapError Error.value
  else (py.int raw |>.map Json.int).mapError Error.value

-- `_tokenize`, from position `i` on.
def tokenize (i : ℕ) (cs : List Char) : Except Error Tokens :=
  match cs with
  | []      => .ok [(.eof, i)]
  | c :: cs =>
    if c ∈ [' ', '\t', '\r', '\n'] then tokenize (i + 1) cs
    else
      match Predicates.symbol? (c :: cs) with
      | some (symbol, n) => do
        let tokens ← tokenize (i + n) (cs.drop (n - 1))
        return (.op symbol, i) :: tokens
      | none =>
        if c = '(' ∨ c = ')' then do
          let tokens ← tokenize (i + 1) cs
          return (.paren c, i) :: tokens
        else if c = '"' ∨ c = '\'' then do
          let (value, n) ← scan_string text c i cs
          let tokens ← tokenize (i + 1 + n) (cs.drop n)
          return (.literal (.str (String.ofList value)), i) :: tokens
        else if py.isdigit c ∨ c = '-' ∧ cs.head?.any py.isdigit then do
          let (n, is_float) := scan_number py (c :: cs)
          let value ← read_number py ((c :: cs).take n) is_float
          let tokens ← tokenize (i + n) (cs.drop (n - 1))
          return (.literal value, i) :: tokens
        else if py.isalpha c ∨ c = '_' then do
          let name := cs.takeWhile py.isname
          let tokens ← tokenize (i + 1 + name.length) (cs.drop name.length)
          return (.ident (String.ofList (c :: name)), i) :: tokens
        else
          .error <| .condition text i <|
            "unexpected character " ++ py.repr (.str (String.singleton c))
  termination_by cs.length
  decreasing_by all_goals simp_wf; try omega

end Lexer

-- A node with the tokens after it, fewer than the given number.
structure Parsed (n : ℕ) where
  node    : Node
  rest    : Tokens
  shorter : rest.length < n

-- The operands of a connective after its first one.
structure Operands (n : ℕ) where
  nodes   : List Node
  rest    : Tokens
  shorter : rest.length < n

section Parser

variable (py : Python) (text : List Char)

def peek (tokens : Tokens) : Token × ℕ :=
  tokens.headD (.eof, 0)

def error (tok : Token × ℕ) (message : String) : Error :=
  .condition text tok.snd message

-- A connective with one operand is that operand.
def connect (op : Connective) (node : Node) (nodes : List Node) : Node :=
  if nodes = [] then node else .bool op (node :: nodes)

mutual

def parse_or (tokens : Tokens) : Except Error (Parsed tokens.length) := do
  let ⟨node, rest, h⟩ ← parse_and tokens
  let ⟨nodes, rest', h'⟩ ← or_loop rest
  return ⟨connect .or node nodes, rest', by omega⟩
  termination_by 6 * tokens.length + 5

-- `while self.peek() is "||"`
def or_loop (tokens : Tokens) : Except Error (Operands (tokens.length + 1)) :=
  match tokens with
  | (.op .or, _) :: tokens => do
    let ⟨node, rest, h⟩ ← parse_and tokens
    let ⟨nodes, rest', h'⟩ ← or_loop rest
    return ⟨node :: nodes, rest', by simp only [List.length_cons]; omega⟩
  | tokens => .ok ⟨[], tokens, Nat.lt_succ_self _⟩
  termination_by 6 * tokens.length + 4

def parse_and (tokens : Tokens) : Except Error (Parsed tokens.length) := do
  let ⟨node, rest, h⟩ ← parse_not tokens
  let ⟨nodes, rest', h'⟩ ← and_loop rest
  return ⟨connect .and node nodes, rest', by omega⟩
  termination_by 6 * tokens.length + 3

def and_loop (tokens : Tokens) : Except Error (Operands (tokens.length + 1)) :=
  match tokens with
  | (.op .and, _) :: tokens => do
    let ⟨node, rest, h⟩ ← parse_not tokens
    let ⟨nodes, rest', h'⟩ ← and_loop rest
    return ⟨node :: nodes, rest', by simp only [List.length_cons]; omega⟩
  | tokens => .ok ⟨[], tokens, Nat.lt_succ_self _⟩
  termination_by 6 * tokens.length + 2

def parse_not (tokens : Tokens) : Except Error (Parsed tokens.length) :=
  match tokens with
  | (.op .not, _) :: tokens => do
    let ⟨node, rest, h⟩ ← parse_not tokens
    return ⟨.not node, rest, by simp only [List.length_cons]; omega⟩
  | tokens => parse_comparison tokens
  termination_by 6 * tokens.length + 2

def parse_comparison (tokens : Tokens) : Except Error (Parsed tokens.length) := do
  let ⟨left, rest, h⟩ ← parse_operand tokens
  match rest, h with
  | (.op symbol, i) :: rest, h =>
    match symbol.comparison? with
    | some op => do
      have hrest : rest.length < tokens.length := Nat.lt_of_succ_lt h
      let ⟨right, rest', h'⟩ ← parse_operand rest
      return ⟨.compare op left right, rest', h'.trans hrest⟩
    | none    => return ⟨left, (.op symbol, i) :: rest, h⟩
  | rest, h => return ⟨left, rest, h⟩
  termination_by 6 * tokens.length + 1

def parse_operand (tokens : Tokens) : Except Error (Parsed tokens.length) :=
  match tokens with
  | (.literal value, _) :: tokens => .ok ⟨.literal value, tokens, Nat.lt_succ_self _⟩
  | (.ident name, i) :: tokens =>
    if name = "raw_value" then .ok ⟨.raw, tokens, Nat.lt_succ_self _⟩
    else if name = "true" then .ok ⟨.literal (.bool true), tokens, Nat.lt_succ_self _⟩
    else if name = "false" then .ok ⟨.literal (.bool false), tokens, Nat.lt_succ_self _⟩
    else if name = "null" then .ok ⟨.literal .null, tokens, Nat.lt_succ_self _⟩
    else
      .error <| .condition text i <| s!"unknown identifier {py.repr (.str name)}; a condition " ++
        "may reference only 'raw_value' and literals (§9A.2 raw_value)"
  | (.paren '(', _) :: tokens => do
    let ⟨node, rest, h⟩ ← parse_or tokens
    match rest, h with
    | (.paren ')', _) :: rest, h =>
      return ⟨node, rest, by simp only [List.length_cons] at h ⊢; omega⟩
    | rest, _ =>
      .error <| error text (peek rest) "expected ')' to close the parenthesized expression"
  | tokens =>
    .error <| error text (peek tokens) <|
      "expected 'raw_value' or a literal, found " ++ py.repr (peek tokens).fst.value
  termination_by 6 * tokens.length

end

def parse (tokens : Tokens) : Except Error Node := do
  let ⟨node, rest, _⟩ ← parse_or py text tokens
  if (peek rest).fst = .eof then return node
  else
    .error <| error text (peek rest) <|
      "unexpected trailing input " ++ py.repr (peek rest).fst.value

-- `_Condition.compile`
def compile : Except Error Node :=
  if text.all py.isspace then .error <| .condition text 0 "condition is empty"
  else do
    let tokens ← tokenize py text 0 text
    parse py text tokens

end Parser

end Conditions
