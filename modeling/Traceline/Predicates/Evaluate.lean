import Traceline.Events
import Traceline.Library.Kleene

-- The scalar predicate language: its syntax trees and what they evaluate to.
namespace Predicates

open Events

-- `ALLOWED_FIELDS`
inductive Field
  | payload
  | cost
  | timestamp
  | provider_request_id
  | parent_event_id
  | redaction_state
  deriving DecidableEq, Repr

inductive Op
  | eq
  | ne
  | lt
  | le
  | gt
  | ge
  deriving DecidableEq, Repr

inductive Node
  | literal (value : Json)
  | path (field : Field) (segments : List String)
  | compare (op : Op) (left right : Node)
  | and (left right : Node)
  | or (left right : Node)
  | not (child : Node)
  deriving DecidableEq, Repr

-- The parts of an event that are models of their own.
inductive Block
  | cost (c : CostBlock)
  | tokens (t : TokenUsage)
  | redaction (r : RedactionState)
  deriving DecidableEq, Repr

inductive Value
  | missing
  | unknown
  | json (j : Json)
  | time (t : Timestamp)
  | block (b : Block)
  deriving DecidableEq, Repr

instance : Coe Bool Value := ⟨fun b => .json (.bool b)⟩

-- A declared field of a model.
def Block.get : Block → String → Value
  | .cost c,      "tokens"        => .block (.tokens c.tokens)
  | .cost c,      "cost_usd"      => .json (.float c.cost_usd)
  | .cost _,      "currency"      => .json (.str "USD")
  | .cost c,      "price_version" => .json (.str c.price_version)
  | .tokens t,    "input"         => .json (.int t.input)
  | .tokens t,    "output"        => .json (.int t.output)
  | .tokens t,    "cache_read"    => .json (.int t.cache_read)
  | .tokens t,    "cache_write"   => .json (.int t.cache_write)
  | .redaction r, "status"        =>
    .json <| .str <| match r.status with
      | .clean     => "clean"
      | .redacted  => "redacted"
      | .truncated => "truncated"
  | .redaction r, "rules"         => .json (.arr (r.rules.map .str))
  | _,            _               => .missing

def Field.get (e : TraceEvent) : Field → Value
  | .payload             => .json <| (e.payload.map Json.obj).getD .null
  | .cost                => (e.cost.map (Value.block <| .cost ·)).getD (.json .null)
  | .timestamp           => .time e.timestamp
  | .provider_request_id => .json <| (e.provider_request_id.map Json.str).getD .null
  | .parent_event_id     => .json <| (e.parent_event_id.map Json.str).getD .null
  | .redaction_state     => .block <| .redaction <| e.redaction_state.getD {}

-- `_resolve_segment`
def resolve_segment : Value → String → Value
  | .json (.obj kvs), segment => (kvs.lookup segment).elim .missing .json
  | .block b,         segment => b.get segment
  | _,                _       => .missing

-- A missing value has no segments, so the loop over them may go on.
def resolve (e : TraceEvent) (field : Field) (segments : List String) : Value :=
  segments.foldl resolve_segment (field.get e)

-- `==` of two instants, which is false where only one of them is naive.
def time_eq (a b : Timestamp) : Bool :=
  match a.offset, b.offset with
  | some x, some y => a.wall - x * 1000000 = b.wall - y * 1000000
  | none,   none   => a.wall = b.wall
  | _,      _      => false

def block_eq : Block → Block → Bool
  | .cost a,      .cost b      =>
    a.tokens = b.tokens && a.cost_usd.eq b.cost_usd && a.price_version = b.price_version
  | .tokens a,    .tokens b    => a = b
  | .redaction a, .redaction b => a = b
  | _,            _            => false

-- `_typed_eq` on two JSON values.
def json_eq (a b : Json) : Bool :=
  match a, b with
  | .bool x, .bool y => x = y
  | .bool _, _       => false
  | _,       .bool _ => false
  | a,       b       =>
    match a.number?, b.number? with
    | some x, some y => x.eq y
    | _,      _      => a.type_name = b.type_name && a.pyEq b

-- `(a > b) - (a < b)`
def sign (greater less : Bool) : Int :=
  greater.toInt - less.toInt

-- `_order` on two JSON values.
def json_order (a b : Json) : Option Int :=
  match a, b with
  | .str x, .str y => some <| sign (y < x) (x < y)
  | a,      b      =>
    match a.number?, b.number? with
    | some x, some y => some <| sign (y.lt x) (x.lt y)
    | _,      _      => none

def time_order (a b : Timestamp) : Except String (Option Int) := do
  let greater ← b.lt a
  let less ← a.lt b
  return some (sign greater less)

section

-- `datetime.fromisoformat`, which is none where it raises a ValueError.
variable (fromisoformat : String → Option Timestamp)

def typed_eq : Value → Value → Bool
  | .json a,        .json b        => json_eq a b
  | .time a,        .json (.str s) => (fromisoformat s).any (time_eq a)
  | .json (.str s), .time b        => (fromisoformat s).any (time_eq · b)
  | .time a,        .time b        => time_eq a b
  | .block a,       .block b       => block_eq a b
  | .missing,       .missing       => true
  | .unknown,       .unknown       => true
  | _,              _              => false

-- Two instants only one of which is naive raise a TypeError.
def order : Value → Value → Except String (Option Int)
  | .json a,        .json b        => .ok (json_order a b)
  | .time a,        .json (.str s) => (fromisoformat s).elim (.ok none) (time_order a)
  | .json (.str s), .time b        => (fromisoformat s).elim (.ok none) (time_order · b)
  | .time a,        .time b        => time_order a b
  | _,              _              => .ok none

def Op.holds : Op → Int → Bool
  | .lt, n => n < 0
  | .le, n => n ≤ 0
  | .gt, n => n > 0
  | _,   n => n ≥ 0

-- `_compare`
def compare (op : Op) (a b : Value) : Except String Value :=
  if a = .missing ∨ b = .missing then
    if op = .eq ∧ (a = .json .null ∨ b = .json .null) then .ok true else .ok .unknown
  else
    match op with
    | .eq => .ok (typed_eq fromisoformat a b)
    | .ne => .ok (!typed_eq fromisoformat a b)
    | op  => do
      match ← order fromisoformat a b with
      | none   => return .unknown
      | some n => return op.holds n

end

-- `_as_truth`
def as_truth : Value → Kleene
  | .json (.bool b) => some b
  | _               => none

def bool_and (a b : Value) : Value :=
  let ta := as_truth a
  let tb := as_truth b
  if ta = some false ∨ tb = some false then false
  else if ta = none ∨ tb = none then .unknown
  else true

def bool_or (a b : Value) : Value :=
  let ta := as_truth a
  let tb := as_truth b
  if ta = some true ∨ tb = some true then true
  else if ta = none ∨ tb = none then .unknown
  else false

def bool_not (a : Value) : Value :=
  match as_truth a with
  | none   => .unknown
  | some b => !b

-- Both sides of a connective are evaluated.
def Node.evaluate (fromisoformat : String → Option Timestamp) (e : TraceEvent) :
    Node → Except String Value
  | .literal value         => .ok (.json value)
  | .path field segments   => .ok (resolve e field segments)
  | .compare op left right => do
    let a ← left.evaluate fromisoformat e
    let b ← right.evaluate fromisoformat e
    Predicates.compare fromisoformat op a b
  | .and left right        => do
    let a ← left.evaluate fromisoformat e
    let b ← right.evaluate fromisoformat e
    return bool_and a b
  | .or left right         => do
    let a ← left.evaluate fromisoformat e
    let b ← right.evaluate fromisoformat e
    return bool_or a b
  | .not child             => do
    let a ← child.evaluate fromisoformat e
    return bool_not a

-- `Predicate.evaluate`
def evaluate (fromisoformat : String → Option Timestamp) (e : TraceEvent) (node : Node) :
    Except String Bool :=
  return (← node.evaluate fromisoformat e) = .json (.bool true)

-- The connectives are those of Kleene's logic, read off the truth values of the operands.
def ofKleene : Kleene → Value
  | none   => .unknown
  | some b => b

section

variable {a b : Value}

theorem bool_and_eq : bool_and a b = ofKleene ((as_truth a).and (as_truth b)) := by
  unfold bool_and
  rcases as_truth a with _ | _ | _ <;> rcases as_truth b with _ | _ | _ <;> rfl

theorem bool_or_eq : bool_or a b = ofKleene ((as_truth a).or (as_truth b)) := by
  unfold bool_or
  rcases as_truth a with _ | _ | _ <;> rcases as_truth b with _ | _ | _ <;> rfl

theorem bool_not_eq : bool_not a = ofKleene (as_truth a).not := by
  unfold bool_not
  rcases as_truth a with _ | _ | _ <;> rfl

end

end Predicates
