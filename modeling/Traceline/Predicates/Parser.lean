import Traceline.Predicates.Evaluate
import Traceline.Text

-- The text of a predicate: its tokens and the grammar over them.
namespace Predicates

inductive Symbol
  | eq
  | ne
  | le
  | ge
  | and
  | or
  | lt
  | gt
  | not
  deriving DecidableEq, Repr

def Symbol.toString : Symbol → String
  | .eq  => "=="
  | .ne  => "!="
  | .le  => "<="
  | .ge  => ">="
  | .and => "&&"
  | .or  => "||"
  | .lt  => "<"
  | .gt  => ">"
  | .not => "!"

-- A token that is one of the comparison operators.
def Symbol.comparison? : Symbol → Option Op
  | .eq             => some .eq
  | .ne             => some .ne
  | .lt             => some .lt
  | .le             => some .le
  | .gt             => some .gt
  | .ge             => some .ge
  | .and | .or | .not => none

inductive Token
  | ident (name : String)
  | number (value : Json)
  | string (value : String)
  | op (symbol : Symbol)
  | dot
  | lparen
  | rparen
  | eof
  deriving DecidableEq, Repr

-- `tok.value`
def Token.value : Token → Json
  | .ident name   => .str name
  | .number value => value
  | .string value => .str value
  | .op symbol    => .str symbol.toString
  | .dot          => .str "."
  | .lparen       => .str "("
  | .rparen       => .str ")"
  | .eof          => .null

-- A token with its position.
abbrev Tokens := List (Token × ℕ)

-- PredicateSyntaxError, PredicateSemanticError, and the ValueError of a number that does not read.
inductive Error
  | syntax_error (text : List Char) (position : ℕ) (message : String)
  | semantic (message : String)
  | value (message : String)
  deriving DecidableEq, Repr

section Lexer

variable (py : Python) (text : List Char)

-- `_ESCAPES`
def escapes : List (Char × Char) :=
  [('n', '\n'), ('t', '\t'), ('r', '\r'), ('b', '\x08'), ('f', '\x0c'), ('"', '"'), ('\'', '\''),
    ('\\', '\\')]

def isHex (c : Char) : Bool :=
  c.isDigit || c ∈ ['a', 'b', 'c', 'd', 'e', 'f', 'A', 'B', 'C', 'D', 'E', 'F']

def hexDigit (c : Char) : ℕ :=
  if c.isDigit then c.toNat - '0'.toNat
  else if c.toNat < 'a'.toNat then c.toNat - 'A'.toNat + 10
  else c.toNat - 'a'.toNat + 10

-- `int(hex4, 16)`
def hexValue (cs : List Char) : ℕ :=
  cs.foldl (fun n c => 16 * n + hexDigit c) 0

-- What follows the opening quote at `start`, read from position `i` on: the characters it stands
-- for, and how many it takes up with the closing quote.
def scan_string (quote : Char) (start i : ℕ) : List Char → Except Error (List Char × ℕ)
  | []        => .error <| .syntax_error text start "unterminated string literal"
  | c :: rest =>
    if c = quote then .ok ([], 1)
    else if c = '\\' then
      match rest with
      | []        => .error <| .syntax_error text i "unterminated escape sequence"
      | esc :: rest =>
        if esc = 'u' then
          match rest with
          | h₁ :: h₂ :: h₃ :: h₄ :: rest =>
            if [h₁, h₂, h₃, h₄].all isHex then do
              let (out, n) ← scan_string quote start (i + 6) rest
              return (Char.ofNat (hexValue [h₁, h₂, h₃, h₄]) :: out, n + 6)
            else .error <| .syntax_error text i "\\u escape requires exactly 4 hex digits"
          | _ => .error <| .syntax_error text i "\\u escape requires exactly 4 hex digits"
        else
          match escapes.lookup esc with
          | some c => do
            let (out, n) ← scan_string quote start (i + 2) rest
            return (c :: out, n + 2)
          | none   =>
            .error <| .syntax_error text i <| "unknown escape sequence \\" ++ String.singleton esc
    else do
      let (out, n) ← scan_string quote start (i + 1) rest
      return (c :: out, n + 1)

def digits (cs : List Char) : ℕ :=
  (cs.takeWhile py.isdigit).length

-- The characters of a number, and whether it is a float.
def scan_number (cs : List Char) : ℕ × Bool :=
  let i := if cs.head? = some '-' then 1 else 0
  let i := i + digits py (cs.drop i)
  let (i, is_float) :=
    if (cs.drop i).head? = some '.' then (i + 1 + digits py (cs.drop (i + 1)), true) else (i, false)
  if (cs.drop i).head? ∈ [some 'e', some 'E'] then
    let i := i + 1
    let i := if (cs.drop i).head? ∈ [some '+', some '-'] then i + 1 else i
    (i + digits py (cs.drop i), true)
  else (i, is_float)

def read_number (raw : List Char) (is_float : Bool) : Except Error Json :=
  if is_float then (py.float raw |>.map Json.float).mapError Error.value
  else (py.int raw |>.map Json.int).mapError Error.value

def symbol? : List Char → Option (Symbol × ℕ)
  | '=' :: '=' :: _ => some (.eq, 2)
  | '!' :: '=' :: _ => some (.ne, 2)
  | '<' :: '=' :: _ => some (.le, 2)
  | '>' :: '=' :: _ => some (.ge, 2)
  | '&' :: '&' :: _ => some (.and, 2)
  | '|' :: '|' :: _ => some (.or, 2)
  | '<' :: _        => some (.lt, 1)
  | '>' :: _        => some (.gt, 1)
  | '!' :: _        => some (.not, 1)
  | _               => none

-- `_tokenize`, from position `i` on.
def tokenize (i : ℕ) (cs : List Char) : Except Error Tokens :=
  match cs with
  | []      => .ok [(.eof, i)]
  | c :: cs =>
    if c ∈ [' ', '\t', '\r', '\n'] then tokenize (i + 1) cs
    else
      match symbol? (c :: cs) with
      | some (symbol, n) => do
        let tokens ← tokenize (i + n) (cs.drop (n - 1))
        return (.op symbol, i) :: tokens
      | none =>
        if c = '(' then do
          let tokens ← tokenize (i + 1) cs
          return (.lparen, i) :: tokens
        else if c = ')' then do
          let tokens ← tokenize (i + 1) cs
          return (.rparen, i) :: tokens
        else if c = '.' then do
          let tokens ← tokenize (i + 1) cs
          return (.dot, i) :: tokens
        else if c = '"' ∨ c = '\'' then do
          let (value, n) ← scan_string text c i (i + 1) cs
          let tokens ← tokenize (i + 1 + n) (cs.drop n)
          return (.string (String.ofList value), i) :: tokens
        else if py.isdigit c ∨ c = '-' ∧ cs.head?.any py.isdigit then do
          let (n, is_float) := scan_number py (c :: cs)
          let value ← read_number py ((c :: cs).take n) is_float
          let tokens ← tokenize (i + n) (cs.drop (n - 1))
          return (.number value, i) :: tokens
        else if py.isalpha c ∨ c = '_' then do
          let name := cs.takeWhile py.isname
          let tokens ← tokenize (i + 1 + name.length) (cs.drop name.length)
          return (.ident (String.ofList (c :: name)), i) :: tokens
        else
          .error <| .syntax_error text i <|
            "unexpected character " ++ py.repr (.str (String.singleton c))
  termination_by cs.length
  decreasing_by all_goals simp_wf; try omega

end Lexer

-- A node with the tokens after it, fewer than the given number.
structure Parsed (n : ℕ) where
  node    : Node
  rest    : Tokens
  shorter : rest.length < n

section Parser

variable (py : Python) (text : List Char)

-- `_MAX_NESTING_DEPTH`
def max_nesting_depth : ℕ := 100

def error (tok : Token × ℕ) (message : String) : Error :=
  .syntax_error text tok.snd message

-- `peek`. No token follows the last one, which is never passed.
def peek (tokens : Tokens) : Token × ℕ :=
  tokens.headD (.eof, 0)

def enter_nesting (depth : ℕ) (tok : Token × ℕ) : Except Error Unit :=
  if depth ≥ max_nesting_depth then
    .error <| error text tok s!"predicate nesting exceeds {max_nesting_depth} levels"
  else .ok ()

def field? : String → Option Field
  | "payload"             => some .payload
  | "cost"                => some .cost
  | "timestamp"           => some .timestamp
  | "provider_request_id" => some .provider_request_id
  | "parent_event_id"     => some .parent_event_id
  | "redaction_state"     => some .redaction_state
  | _                     => none

def smuggling (name : String) : Error :=
  .semantic <| s!"identifier {py.repr (.str name)} starts with '_' — attribute smuggling is not " ++
    "part of the predicate language"

-- The segments after the first one, and the tokens after them.
def parse_segments : (tokens : Tokens) →
    Except Error (List String × {rest : Tokens // rest.length ≤ tokens.length})
  | (.dot, _) :: (.ident name, i) :: tokens =>
    if name.startsWith "_" then .error (smuggling py name)
    else if name ∈ ["true", "false", "null"] then
      .error <| .syntax_error text i <|
        s!"reserved word {py.repr (.str name)} cannot be a path segment"
    else do
      let (segments, rest) ← parse_segments tokens
      return (name :: segments, ⟨rest, rest.property.trans (by simp; omega)⟩)
  | (.dot, _) :: tokens =>
    .error <| error text (peek tokens) "expected an identifier after '.'"
  | tokens => .ok ([], ⟨tokens, le_rfl⟩)

-- `_parse_path`, after its first name.
def parse_path (name : String) (tokens : Tokens) :
    Except Error (Node × {rest : Tokens // rest.length ≤ tokens.length}) :=
  if name.startsWith "_" then .error (smuggling py name)
  else
    match field? name with
    | none =>
      .error <| .semantic <| s!"unknown field {py.repr (.str name)}; a predicate path must root at " ++
        "one of the whitelisted event fields: ('payload', 'cost', 'timestamp', " ++
        "'provider_request_id', 'parent_event_id', 'redaction_state')"
    | some field => do
      let (segments, rest) ← parse_segments py text tokens
      return (.path field segments, rest)

mutual

def parse_or (depth : ℕ) (tokens : Tokens) : Except Error (Parsed tokens.length) := do
  let ⟨node, rest, h⟩ ← parse_and depth tokens
  let ⟨node, rest', h'⟩ ← or_loop depth node rest
  return ⟨node, rest', by omega⟩
  termination_by 6 * tokens.length + 5

-- `while self.peek() is "||"`
def or_loop (depth : ℕ) (node : Node) (tokens : Tokens) :
    Except Error (Parsed (tokens.length + 1)) :=
  match tokens with
  | (.op .or, _) :: tokens => do
    let ⟨right, rest, h⟩ ← parse_and depth tokens
    let ⟨node, rest', h'⟩ ← or_loop depth (.or node right) rest
    return ⟨node, rest', by simp only [List.length_cons]; omega⟩
  | tokens => .ok ⟨node, tokens, Nat.lt_succ_self _⟩
  termination_by 6 * tokens.length + 4

def parse_and (depth : ℕ) (tokens : Tokens) : Except Error (Parsed tokens.length) := do
  let ⟨node, rest, h⟩ ← parse_not depth tokens
  let ⟨node, rest', h'⟩ ← and_loop depth node rest
  return ⟨node, rest', by omega⟩
  termination_by 6 * tokens.length + 3

def and_loop (depth : ℕ) (node : Node) (tokens : Tokens) :
    Except Error (Parsed (tokens.length + 1)) :=
  match tokens with
  | (.op .and, _) :: tokens => do
    let ⟨right, rest, h⟩ ← parse_not depth tokens
    let ⟨node, rest', h'⟩ ← and_loop depth (.and node right) rest
    return ⟨node, rest', by simp only [List.length_cons]; omega⟩
  | tokens => .ok ⟨node, tokens, Nat.lt_succ_self _⟩
  termination_by 6 * tokens.length + 2

def parse_not (depth : ℕ) (tokens : Tokens) : Except Error (Parsed tokens.length) :=
  match tokens with
  | (.op .not, i) :: tokens => do
    enter_nesting text depth (.op .not, i)
    let ⟨node, rest, h⟩ ← parse_not (depth + 1) tokens
    return ⟨.not node, rest, by simp only [List.length_cons]; omega⟩
  | tokens => parse_comparison depth tokens
  termination_by 6 * tokens.length + 2

def parse_comparison (depth : ℕ) (tokens : Tokens) : Except Error (Parsed tokens.length) := do
  let ⟨left, rest, h⟩ ← parse_primary depth tokens
  match rest, h with
  | (.op symbol, i) :: rest, h =>
    match symbol.comparison? with
    | some op => do
      have hrest : rest.length < tokens.length := Nat.lt_of_succ_lt h
      let ⟨right, rest', h'⟩ ← parse_primary depth rest
      return ⟨.compare op left right, rest', h'.trans hrest⟩
    | none    => return ⟨left, (.op symbol, i) :: rest, h⟩
  | rest, h => return ⟨left, rest, h⟩
  termination_by 6 * tokens.length + 1

def parse_primary (depth : ℕ) (tokens : Tokens) : Except Error (Parsed tokens.length) :=
  match tokens with
  | (.number value, _) :: tokens => .ok ⟨.literal value, tokens, Nat.lt_succ_self _⟩
  | (.string value, _) :: tokens => .ok ⟨.literal (.str value), tokens, Nat.lt_succ_self _⟩
  | (.ident name, _) :: tokens =>
    if name = "true" then .ok ⟨.literal (.bool true), tokens, Nat.lt_succ_self _⟩
    else if name = "false" then .ok ⟨.literal (.bool false), tokens, Nat.lt_succ_self _⟩
    else if name = "null" then .ok ⟨.literal .null, tokens, Nat.lt_succ_self _⟩
    else do
      let (node, rest) ← parse_path py text name tokens
      return ⟨node, rest, Nat.lt_succ_of_le rest.property⟩
  | (.lparen, i) :: tokens => do
    enter_nesting text depth (.lparen, i)
    let ⟨node, rest, h⟩ ← parse_or (depth + 1) tokens
    match rest, h with
    | (.rparen, _) :: rest, h =>
      return ⟨node, rest, by simp only [List.length_cons] at h ⊢; omega⟩
    | rest, _ =>
      .error <| error text (peek rest) "expected ')' to close the parenthesized expression"
  | tokens =>
    .error <| error text (peek tokens) <|
      "expected an expression, found " ++ py.repr (peek tokens).fst.value
  termination_by 6 * tokens.length + 0

end

-- `_Parser.parse`
def parse (tokens : Tokens) : Except Error Node := do
  let ⟨node, rest, _⟩ ← parse_or py text 0 tokens
  if (peek rest).fst = .eof then return node
  else
    .error <| error text (peek rest) <|
      "unexpected trailing input " ++ py.repr (peek rest).fst.value

-- `Predicate.compile` in the prototype language.
def compile : Except Error Node :=
  if text.all py.isspace then .error <| .syntax_error text 0 "predicate is empty"
  else do
    let tokens ← tokenize py text 0 text
    parse py text tokens

end Parser

end Predicates

-- A predicate in one of its two languages.
namespace Predicates

open Events

inductive Version
  | prototype
  | cel
  deriving DecidableEq, Repr

-- A compiled predicate, whose evaluation may raise a TypeError.
abbrev Predicate := TraceEvent → Except String Bool

-- What the languages draw on. The CEL runtime, which yields false for whatever it cannot evaluate,
-- is not part of the program.
structure Language where
  py            : Python
  fromisoformat : String → Option Timestamp
  cel           : String → Except Error (TraceEvent → Bool)

-- `Predicate.compile`
def Language.compile (lang : Language) (text : String) (language_version : Option Version) :
    Except Error Predicate :=
  if text.toList.all lang.py.isspace then .error <| .syntax_error text.toList 0 "predicate is empty"
  else
    match language_version.getD .prototype with
    | .prototype => do
      let node ← Predicates.compile lang.py text.toList
      return fun event => evaluate lang.fromisoformat event node
    | .cel       => do
      let runner ← lang.cel text
      return fun event => .ok (runner event)

-- `_CEL_MARKERS`
def CEL_MARKERS : List String :=
  ["[", "has(", "size(", "matches(", "contains_secret(", " in "]

-- `_needs_cel`
def needs_cel (text : String) : Bool :=
  CEL_MARKERS.any fun marker => text.toList.tails.any marker.toList.isPrefixOf

-- The closed grammar of the predicate language, and how a tree is written in it.

inductive Rule
  | or
  | and
  | not
  | comparison
  | primary
  deriving DecidableEq, Repr

-- The tokens that a rule derives at a depth of nesting, and the tree they stand for. The operands
-- of a connective are grouped to the left.
inductive Derives (ident : String → Prop) : Rule → ℕ → List Token → Node → Prop
  | or {d xs ys a b} :
    Derives ident .or d xs a → Derives ident .and d ys b →
    Derives ident .or d (xs ++ .op .or :: ys) (.or a b)
  | of_and {d xs a} :
    Derives ident .and d xs a → Derives ident .or d xs a
  | and {d xs ys a b} :
    Derives ident .and d xs a → Derives ident .not d ys b →
    Derives ident .and d (xs ++ .op .and :: ys) (.and a b)
  | of_not {d xs a} :
    Derives ident .not d xs a → Derives ident .and d xs a
  | not {d xs a} :
    d < max_nesting_depth → Derives ident .not (d + 1) xs a →
    Derives ident .not d (.op .not :: xs) (.not a)
  | of_comparison {d xs a} :
    Derives ident .comparison d xs a → Derives ident .not d xs a
  | compare {d xs ys a b symbol op} :
    symbol.comparison? = some op → Derives ident .primary d xs a → Derives ident .primary d ys b →
    Derives ident .comparison d (xs ++ .op symbol :: ys) (.compare op a b)
  | of_primary {d xs a} :
    Derives ident .primary d xs a → Derives ident .comparison d xs a
  | number {d value} :
    Derives ident .primary d [.number value] (.literal value)
  | string {d value} :
    Derives ident .primary d [.string value] (.literal (.str value))
  | true {d} :
    Derives ident .primary d [.ident "true"] (.literal (.bool true))
  | false {d} :
    Derives ident .primary d [.ident "false"] (.literal (.bool false))
  | null {d} :
    Derives ident .primary d [.ident "null"] (.literal .null)
  | path {d name field segments} :
    field? name = some field → (∀ x ∈ segments, ident x) →
    Derives ident .primary d (.ident name :: segments.flatMap fun x => [.dot, .ident x])
      (.path field segments)
  | group {d xs a} :
    d < max_nesting_depth → Derives ident .or (d + 1) xs a →
    Derives ident .primary d (.lparen :: (xs ++ [.rparen])) a

-- A path segment as the grammar is documented.
def Visible (x : String) : Prop :=
  x.startsWith "_" = false

-- A path segment as it is parsed. Reserved words are literals.
structure Segment (x : String) : Prop where
  visible  : Visible x
  reserved : x ∉ ["true", "false", "null"]

-- The tokens before the end of the input.
def sentence (tokens : Tokens) : List Token :=
  (tokens.map Prod.fst).takeWhile (· ≠ .eof)

def Field.name : Field → String
  | .payload             => "payload"
  | .cost                => "cost"
  | .timestamp           => "timestamp"
  | .provider_request_id => "provider_request_id"
  | .parent_event_id     => "parent_event_id"
  | .redaction_state     => "redaction_state"

def Op.symbol : Op → Symbol
  | .eq => .eq
  | .ne => .ne
  | .lt => .lt
  | .le => .le
  | .gt => .gt
  | .ge => .ge

namespace Node

def literal_token : Json → Token
  | .str value   => .string value
  | .bool true   => .ident "true"
  | .bool false  => .ident "false"
  | .null        => .ident "null"
  | value        => .number value

def atomic : Node → Bool
  | .literal _ | .path _ _                           => true
  | .compare _ _ _ | .and _ _ | .or _ _ | .not _     => false

def enclose (atomic : Bool) (tokens : List Token) : List Token :=
  if atomic then tokens else .lparen :: (tokens ++ [.rparen])

-- A tree with parentheses around every operand that is not a literal or a path.
def print : Node → List Token
  | .literal value         => [literal_token value]
  | .path field segments   => .ident field.name :: segments.flatMap fun x => [.dot, .ident x]
  | .compare op left right =>
    enclose left.atomic left.print ++ .op op.symbol :: enclose right.atomic right.print
  | .and left right        =>
    enclose left.atomic left.print ++ .op .and :: enclose right.atomic right.print
  | .or left right         =>
    enclose left.atomic left.print ++ .op .or :: enclose right.atomic right.print
  | .not child             => .op .not :: enclose child.atomic child.print

-- The levels of nesting that printing a tree takes.
def levels : Node → ℕ
  | .literal _ | .path _ _    => 0
  | .compare _ left right
  | .and left right
  | .or left right            =>
    max (left.levels + left.atomic.not.toNat) (right.levels + right.atomic.not.toNat)
  | .not child                => child.levels + child.atomic.not.toNat + 1

end Node

end Predicates
