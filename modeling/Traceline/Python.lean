import Mathlib.Algebra.Order.Field.Basic
import Mathlib.Data.Rat.Floor
import Traceline.Json

-- Python's comparisons and arithmetic on floats. A finite float is the rational it denotes, so no
-- operation here rounds.
namespace PyFloat

def lt : PyFloat → PyFloat → Bool
  | .finite a, .finite b => a < b
  | .finite _, .posInf   => true
  | .negInf,   .finite _ => true
  | .negInf,   .posInf   => true
  | _,         _         => false

-- `==`, under which a NaN equals nothing.
def eq : PyFloat → PyFloat → Bool
  | .nan, _ => false
  | a,    b => a = b

def le (a b : PyFloat) : Bool :=
  a.lt b || a.eq b

def neg : PyFloat → PyFloat
  | .finite a => .finite (-a)
  | .posInf   => .negInf
  | .negInf   => .posInf
  | .nan      => .nan

def add : PyFloat → PyFloat → PyFloat
  | .nan,      _         => .nan
  | _,         .nan      => .nan
  | .finite a, .finite b => .finite (a + b)
  | .finite _, b         => b
  | a,         .finite _ => a
  | a,         b         => if a = b then a else .nan

def sub (a b : PyFloat) : PyFloat :=
  a.add b.neg

-- True division by a positive float.
def div : PyFloat → PyFloat → PyFloat
  | .finite a, .finite b => .finite (a / b)
  | .finite _, .posInf   => .finite 0
  | .posInf,   .finite _ => .posInf
  | .negInf,   .finite _ => .negInf
  | _,         _         => .nan

-- `max(a, b)` and `min(a, b)` keep the first argument unless the second one beats it.
def max (a b : PyFloat) : PyFloat :=
  if a.lt b then b else a

def min (a b : PyFloat) : PyFloat :=
  if b.lt a then b else a

def sum (xs : List PyFloat) : PyFloat :=
  xs.foldl add (.finite 0)

def isNaN : PyFloat → Bool
  | .nan => true
  | _    => false

-- `math.isfinite`.
def isFinite : PyFloat → Bool
  | .finite _ => true
  | _         => false

-- The integer nearest to a rational, and of two the even one.
def round_half_even (q : ℚ) : Int :=
  let rest := q - ⌊q⌋
  if rest < 1 / 2 then ⌊q⌋ else if 1 / 2 < rest then ⌊q⌋ + 1 else ⌊q⌋ + ⌊q⌋ % 2

-- The exponent of the greatest power of two up to the absolute value.
def exponent (q : ℚ) : Int :=
  let n : Int := q.num.natAbs.log2 - q.den.log2
  if 2 ^ n ≤ |q| then n else n - 1

-- The double nearest to a rational that is within the range of normal doubles.
def nearest (q : ℚ) : ℚ :=
  let ulp : ℚ := 2 ^ (exponent q - 52)
  round_half_even (q / ulp) * ulp

variable {a b : PyFloat}

theorem eq_iff : a.eq b ↔ a = b ∧ a.isNaN = false := by
  cases a <;> simp [eq, isNaN]

end PyFloat

namespace Json

-- The number a value denotes, for a comparison. Python compares an int and a float exactly.
def number? : Json → Option PyFloat
  | .int n   => some (.finite n)
  | .float x => some x
  | _        => none

-- The least absolute value of an int that does not convert to a float.
def floatLimit : ℕ :=
  2 ^ 1024 - 2 ^ 970

-- `float(value)`, for an operand of an arithmetic operation.
def toFloat : Json → Except String PyFloat
  | .int n   =>
    if n.natAbs < floatLimit then .ok (.finite n) else .error "int too large to convert to float"
  | .float x => .ok x
  | _        => .error "unsupported operand type"

def isNumber (j : Json) : Bool :=
  j.number?.isSome

def string? : Json → Option String
  | .str s => some s
  | _      => none

-- `bool(value)`
def truthy : Json → Bool
  | .null    => false
  | .bool b  => b
  | .int n   => n ≠ 0
  | .float x => x ≠ .finite 0
  | .str s   => s ≠ ""
  | .arr xs  => xs ≠ []
  | .obj kvs => kvs ≠ []

-- `type(value).__name__`
def type_name : Json → String
  | .null    => "NoneType"
  | .bool _  => "bool"
  | .int _   => "int"
  | .float _ => "float"
  | .str _   => "str"
  | .arr _   => "list"
  | .obj _   => "dict"

-- `value.get(key)` and `value[key]`.
def get? (key : String) : Json → Option Json
  | .obj kvs => kvs.lookup key
  | _        => none

mutual

-- Python's `==`, under which a bool is the int it converts to.
def pyEq : Json → Json → Bool
  | .null,    .null    => true
  | .str x,   .str y   => x = y
  | .arr xs,  .arr ys  => pyEqList xs ys
  | .obj xs,  .obj ys  => xs.length = ys.length && pyEqFields xs ys
  | .bool x,  .bool y  => x = y
  | .bool x,  .int n   => x.toInt = n
  | .bool x,  .float y => y.eq (.finite x.toInt)
  | .int n,   .bool y  => n = y.toInt
  | .float x, .bool y  => x.eq (.finite y.toInt)
  | .int n,   .int m   => n = m
  | .int n,   .float y => y.eq (.finite n)
  | .float x, .int m   => x.eq (.finite m)
  | .float x, .float y => x.eq y
  | _,        _        => false

def pyEqList : List Json → List Json → Bool
  | [],      []      => true
  | x :: xs, y :: ys => pyEq x y && pyEqList xs ys
  | _,       _       => false

def pyEqFields : List (String × Json) → List (String × Json) → Bool
  | [],           _  => true
  | (k, x) :: xs, ys =>
    (match ys.lookup k with
      | some y => pyEq x y
      | none   => false) &&
    pyEqFields xs ys

end

mutual

-- `json.dumps(value, allow_nan=False)` raises on a float that is not finite.
def finiteFloats : Json → Bool
  | .float x => x.isFinite
  | .arr xs  => finiteFloatsList xs
  | .obj kvs => finiteFloatsFields kvs
  | .null | .bool _ | .int _ | .str _ => true

def finiteFloatsList : List Json → Bool
  | []      => true
  | x :: xs => finiteFloats x && finiteFloatsList xs

def finiteFloatsFields : List (String × Json) → Bool
  | []             => true
  | (_, x) :: kvs => finiteFloats x && finiteFloatsFields kvs

end

end Json
