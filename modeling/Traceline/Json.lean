import Mathlib.Data.Rat.Defs

-- The floats a JSON reader yields: `json.loads` also accepts `NaN`, `Infinity` and `-Infinity`.
inductive PyFloat
  | finite (q : ℚ)
  | posInf
  | negInf
  | nan
  deriving DecidableEq, Repr

-- What `json.loads` returns. An object keeps its keys in the order of a `dict`.
inductive Json
  | null
  | bool (b : Bool)
  | int (n : Int)
  | float (x : PyFloat)
  | str (s : String)
  | arr (xs : List Json)
  | obj (kvs : List (String × Json))
  deriving Repr

namespace Json

mutual

def decEq : (a b : Json) → Decidable (a = b)
  | .null, b => match b with
    | .null => isTrue rfl
    | .bool _ | .int _ | .float _ | .str _ | .arr _ | .obj _ => isFalse nofun
  | .bool x, b => match b with
    | .bool y => decidable_of_iff (x = y) (by simp)
    | .null | .int _ | .float _ | .str _ | .arr _ | .obj _ => isFalse nofun
  | .int x, b => match b with
    | .int y => decidable_of_iff (x = y) (by simp)
    | .null | .bool _ | .float _ | .str _ | .arr _ | .obj _ => isFalse nofun
  | .float x, b => match b with
    | .float y => decidable_of_iff (x = y) (by simp)
    | .null | .bool _ | .int _ | .str _ | .arr _ | .obj _ => isFalse nofun
  | .str x, b => match b with
    | .str y => decidable_of_iff (x = y) (by simp)
    | .null | .bool _ | .int _ | .float _ | .arr _ | .obj _ => isFalse nofun
  | .arr x, b => match b with
    | .arr y => have := decEqList x y; decidable_of_iff (x = y) (by simp)
    | .null | .bool _ | .int _ | .float _ | .str _ | .obj _ => isFalse nofun
  | .obj x, b => match b with
    | .obj y => have := decEqFields x y; decidable_of_iff (x = y) (by simp)
    | .null | .bool _ | .int _ | .float _ | .str _ | .arr _ => isFalse nofun

def decEqList : (xs ys : List Json) → Decidable (xs = ys)
  | [], [] => isTrue rfl
  | [], _ :: _ => isFalse nofun
  | _ :: _, [] => isFalse nofun
  | x :: xs, y :: ys =>
    have := decEq x y
    have := decEqList xs ys
    decidable_of_iff (x = y ∧ xs = ys) (by simp)

def decEqFields : (xs ys : List (String × Json)) → Decidable (xs = ys)
  | [], [] => isTrue rfl
  | [], _ :: _ => isFalse nofun
  | _ :: _, [] => isFalse nofun
  | (k, x) :: xs, (l, y) :: ys =>
    have := decEq x y
    have := decEqFields xs ys
    decidable_of_iff ((k = l ∧ x = y) ∧ xs = ys) (by simp)

end

instance : DecidableEq Json := decEq

instance : Inhabited Json := ⟨.null⟩

-- `isinstance(value, Mapping)`.
def fields? : Json → Option (List (String × Json))
  | .obj kvs => some kvs
  | _        => none

section Induction

variable {P : Json → Prop}

mutual

theorem induct (null : P .null) (bool : ∀ b, P (.bool b)) (int : ∀ n, P (.int n))
    (float : ∀ x, P (.float x)) (str : ∀ s, P (.str s)) (arr : ∀ xs, (∀ x ∈ xs, P x) → P (.arr xs))
    (obj : ∀ kvs, (∀ kv ∈ kvs, P kv.2) → P (.obj kvs)) : (j : Json) → P j
  | .null    => null
  | .bool b  => bool b
  | .int n   => int n
  | .float x => float x
  | .str s   => str s
  | .arr xs  => arr xs <| induct_list null bool int float str arr obj xs
  | .obj kvs => obj kvs <| induct_fields null bool int float str arr obj kvs

theorem induct_list (null : P .null) (bool : ∀ b, P (.bool b)) (int : ∀ n, P (.int n))
    (float : ∀ x, P (.float x)) (str : ∀ s, P (.str s)) (arr : ∀ xs, (∀ x ∈ xs, P x) → P (.arr xs))
    (obj : ∀ kvs, (∀ kv ∈ kvs, P kv.2) → P (.obj kvs)) : (xs : List Json) → ∀ x ∈ xs, P x
  | [],      _, h => nomatch h
  | y :: ys, x, h =>
    (List.mem_cons.mp h).elim (fun hx => hx ▸ induct null bool int float str arr obj y)
      (induct_list null bool int float str arr obj ys x)

theorem induct_fields (null : P .null) (bool : ∀ b, P (.bool b)) (int : ∀ n, P (.int n))
    (float : ∀ x, P (.float x)) (str : ∀ s, P (.str s)) (arr : ∀ xs, (∀ x ∈ xs, P x) → P (.arr xs))
    (obj : ∀ kvs, (∀ kv ∈ kvs, P kv.2) → P (.obj kvs)) :
    (kvs : List (String × Json)) → ∀ kv ∈ kvs, P kv.2
  | [],            _,  h => nomatch h
  | (_, y) :: kvs, kv, h =>
    (List.mem_cons.mp h).elim (fun hkv => hkv ▸ induct null bool int float str arr obj y)
      (induct_fields null bool int float str arr obj kvs kv)

end

end Induction

end Json
