import Mathlib.Data.List.Sort
import Traceline.Loads
import Traceline.Python

-- JSON as canonical text, and the identities that are digests of it.
namespace Datasets

-- `float.__repr__`, and the hexadecimal SHA-256 of the UTF-8 bytes of a text.
structure Digests where
  repr   : ℚ → String
  sha256 : String → String

def hex (n : ℕ) : List Char :=
  [n / 4096 % 16, n / 256 % 16, n / 16 % 16, n % 16].map Nat.digitChar

-- `\uXXXX`, for a character that two units encode in UTF-16 twice.
def unicode_escape (n : ℕ) : List Char :=
  if n < 0x10000 then '\\' :: 'u' :: hex n
  else
    let m := n - 0x10000
    '\\' :: 'u' :: hex (0xd800 + m / 0x400) ++ '\\' :: 'u' :: hex (0xdc00 + m % 0x400)

-- `ESCAPE_DCT`
def escape? : Char → Option Char
  | '\\'   => some '\\'
  | '"'    => some '"'
  | '\x08' => some 'b'
  | '\x0c' => some 'f'
  | '\n'   => some 'n'
  | '\r'   => some 'r'
  | '\t'   => some 't'
  | _      => none

-- The characters that are beyond what `ensure_ascii` keeps.
def high (c : Char) : Bool :=
  0x7f ≤ c.toNat

def encode_char (ensure_ascii : Bool) (c : Char) : List Char :=
  match escape? c with
  | some e => ['\\', e]
  | none   =>
    if c.toNat < 0x20 then unicode_escape c.toNat
    else if ensure_ascii && high c then unicode_escape c.toNat
    else [c]

def encode_string (ensure_ascii : Bool) (s : String) : List Char :=
  '"' :: (s.toList.flatMap (encode_char ensure_ascii) ++ ['"'])

section

variable (D : Digests)

def encode_float : PyFloat → String
  | .finite q => D.repr q
  | .posInf   => "Infinity"
  | .negInf   => "-Infinity"
  | .nan      => "NaN"

-- The parts of an array or an object, between its brackets.
def enclose (first last : Char) (parts : List (List Char)) : List Char :=
  first :: (List.intercalate [','] parts ++ [last])

def encode_field (ensure_ascii : Bool) (kv : String × List Char) : List Char :=
  encode_string ensure_ascii kv.1 ++ ':' :: kv.2

def sort_keys (kvs : List (String × List Char)) : List (String × List Char) :=
  kvs.insertionSort fun a b => a.1 ≤ b.1

variable (ensure_ascii : Bool)

mutual

-- `json.dumps(value, sort_keys=True, separators=(",", ":"), ensure_ascii=…)`
def dumps : Json → List Char
  | .null       => "null".toList
  | .bool true  => "true".toList
  | .bool false => "false".toList
  | .int n      => (toString n).toList
  | .float x    => (encode_float D x).toList
  | .str s      => encode_string ensure_ascii s
  | .arr xs     => enclose '[' ']' (dumps_list xs)
  | .obj kvs    => enclose '\x7b' '\x7d' <|
    (sort_keys (dumps_fields kvs)).map (encode_field ensure_ascii)

def dumps_list : List Json → List (List Char)
  | []      => []
  | x :: xs => dumps x :: dumps_list xs

def dumps_fields : List (String × Json) → List (String × List Char)
  | []            => []
  | (k, v) :: kvs => (k, dumps v) :: dumps_fields kvs

end

-- `canonical_json`, which is none where the content is not finite.
def canonical_json (value : Json) : Option String :=
  if value.finiteFloats then some <| String.ofList (dumps D false value) else none

def _digest (value : Json) : Option String :=
  (canonical_json D value).map D.sha256

-- The case key of the storage.
def case_key (case_input : Json) : String :=
  D.sha256 <| String.ofList (dumps D true case_input)

end

section Values

open Loads (plain)

-- A float that is read again from its `repr`, as every float is.
def ReadBack (D : Digests) : PyFloat → Prop
  | .finite q => (D.repr q).toList ≠ [] ∧ (∀ c ∈ (D.repr q).toList, plain c) ∧
    Loads.scalar (D.repr q).toList = some (.float (.finite q))
  | _         => True

-- A value that Python can hold: the keys of a `dict` are distinct.
inductive Value (D : Digests) : Json → Prop
  | null           : Value D .null
  | bool b         : Value D (.bool b)
  | int n          : Value D (.int n)
  | float {x}      : ReadBack D x → Value D (.float x)
  | str s          : Value D (.str s)
  | arr {xs}       : (∀ x ∈ xs, Value D x) → Value D (.arr xs)
  | obj {kvs}      : (kvs.map (·.1)).Nodup → (∀ kv ∈ kvs, Value D kv.2) → Value D (.obj kvs)

end Values

end Datasets
