import Traceline.Events
import Traceline.Text

-- The rules over a trace and the check of their shape when a specification is read.
namespace TraceRules

open Events

inductive Op
  | for_all
  | exists
  | never
  | exists_before
  | exists_after
  | immediately_precedes
  | count
  | within_ms
  | and
  | or
  | not
  | implies
  deriving DecidableEq, Repr

def Op.toString : Op → String
  | .for_all              => "for_all"
  | .exists               => "exists"
  | .never                => "never"
  | .exists_before        => "exists_before"
  | .exists_after         => "exists_after"
  | .immediately_precedes => "immediately_precedes"
  | .count                => "count"
  | .within_ms            => "within_ms"
  | .and                  => "and"
  | .or                   => "or"
  | .not                  => "not"
  | .implies              => "implies"

-- `TRACE_RULE_OPS`
def TRACE_RULE_OPS : List Op :=
  [.for_all, .exists, .never, .exists_before, .exists_after, .immediately_precedes, .count,
    .within_ms, .and, .or, .not, .implies]

-- A node of a rule, which is a JSON object.
abbrev Node := List (String × Json)

-- `node.get(key)`, for which a key that is absent and one that is null are the same.
def get (node : Node) (key : String) : Json :=
  (node.lookup key).getD .null

def op? (node : Node) : Option Op :=
  TRACE_RULE_OPS.find? fun op => get node "op" = .str op.toString

-- An object below a key.
def object? (node : Node) (key : String) : Option Node :=
  (get node key).fields?

-- The list below `rules`, where it is one and is not empty.
def children? (node : Node) : Option (List Json) :=
  match get node "rules" with
  | .arr (rule :: rules) => some (rule :: rules)
  | _                    => none

-- `isinstance(value, int)`, which a bool is too.
def int? : Json → Option Int
  | .int n  => some n
  | .bool b => some b.toInt
  | _       => none

-- An optional filter in milliseconds.
def window? : Json → Option (Option Int)
  | .null => some none
  | value => (int? value).map some

def sources : List Json :=
  [Source.proxy, .adapter, .runner].map fun source => .str source.toString

-- The limit of `_MAX_RULE_DEPTH` as what is left of it at the root.
def MAX_DEPTH : ℕ :=
  101

section Validator

variable (py : Python)

-- A check that raises a ValueError where it fails.
def require (holds : Bool) (message : String) : Except String Unit :=
  if holds then .ok () else .error message

-- `repr` of a tuple of names.
def repr_names (names : List String) : String :=
  "(" ++ ", ".intercalate (names.map fun name => py.repr (.str name)) ++ ")"

def validate_match (pattern : Node) : Except String Unit := do
  let event := get pattern "event"
  let tool := get pattern "tool"
  let clause := get pattern "where"
  let source := get pattern "source"
  require (event ∈ EVENT_TYPES.map fun type => Json.str type.toString) <|
    "trace-rule match.event must be one of the §12B event types " ++
      repr_names py (EVENT_TYPES.map EventType.toString) ++ "; got " ++ py.repr event
  require (tool = .null || tool.string?.isSome) <|
    "trace-rule match.tool must be a tool name (string)"
  require (clause = .null || clause.string?.isSome) <|
    "trace-rule match.where must be a CEL string"
  require (source = .null || source ∈ sources) <|
    s!"trace-rule match.source must be proxy|adapter|runner; got {py.repr source}"

-- `validate_trace_rule_body`
def validate_trace_rule_body : ℕ → Bool → Json → Except String Unit
  | 0,        _,    _         => .error "trace-rule nesting exceeds 100 levels"
  | left + 1, root, .obj node =>
    let shown := py.repr (get node "op")
    match op? node with
    | none =>
      .error <| "trace-rule node requires an 'op' from the closed set " ++
        repr_names py (TRACE_RULE_OPS.map Op.toString) ++ "; got " ++ shown
    | some .and | some .or =>
      match children? node with
      | none       => .error s!"trace-rule op {shown} requires a non-empty 'rules' list"
      | some rules => rules.forM (validate_trace_rule_body left false)
    | some .not | some .implies =>
      match object? node "rule" with
      | none      => .error s!"trace-rule op {shown} requires a 'rule' child"
      | some rule => validate_trace_rule_body left false (.obj rule)
    | some op => do
      require (op ≠ .count || root)
        "trace-rule op 'count' is terminal and valid only as the rule's root op (§9A.3)"
      require (op ≠ .within_ms || (int? (get node "ms")).isSome)
        "trace-rule op 'within_ms' requires 'ms' (int milliseconds)"
      match object? node "match" with
      | none         => .error s!"trace-rule op {shown} requires a 'match' object"
      | some pattern => do
        validate_match py pattern
        require (window? (get node "within_ms")).isSome
          "trace-rule 'within_ms' filter must be an int (milliseconds)"
        if op ≠ .for_all then .ok ()
        else
          match object? node "assert" with
          | none      => .error "trace-rule op 'for_all' requires an 'assert' rule"
          | some rule => validate_trace_rule_body left false (.obj rule)
  | _ + 1,    _,    _         => .error "trace-rule node must be a JSON object"

end Validator

end TraceRules
