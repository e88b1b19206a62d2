import Traceline.Python

-- `json.loads`, which reads a text character by character. It fails where the text is no JSON. A
-- string of JSON that holds half of a surrogate pair is no text here, and nothing bounds how deeply
-- values are nested.
namespace Loads

abbrev Fields := List (String × Json)

-- What JSON allows between its tokens.
def space (c : Char) : Bool :=
  c.toNat ∈ [0x20, 0x09, 0x0a, 0x0d]

def digit (c : Char) : Bool :=
  c.toNat - 0x30 < 10 && 0x30 ≤ c.toNat

-- The characters of numbers and names.
def plain (c : Char) : Bool :=
  c.isAlphanum || c.toNat ∈ [0x2b, 0x2d, 0x2e]

-- The double that is nearest to a decimal.
def float (q : ℚ) : PyFloat :=
  let ulp : ℚ := 2 ^ max (PyFloat.exponent q - 52) (-1074)
  if q = 0 then .finite 0
  else if |q| < Json.floatLimit then .finite <| PyFloat.round_half_even (q / ulp) * ulp
  else if 0 < q then .posInf
  else .negInf

def digits (cs : List Char) : ℕ :=
  Nat.ofDigitChars 10 cs 0

-- `(\.\d+)?`, and what is after it.
def fraction : List Char → Option (List Char × List Char)
  | '.' :: cs =>
    if cs.takeWhile digit = [] then none else some (cs.takeWhile digit, cs.dropWhile digit)
  | cs        => some ([], cs)

-- `([eE][-+]?\d+)?`
def exponent : List Char → Option Int
  | []      => some 0
  | e :: cs =>
    if e.toNat ∈ [0x45, 0x65] then
      let (negative, cs) :=
        match cs with
        | '-' :: cs => (true, cs)
        | '+' :: cs => (false, cs)
        | cs        => (false, cs)
      if cs ≠ [] ∧ cs.all digit then some <| if negative then -digits cs else digits cs else none
    else none

-- `-?(?:0|[1-9]\d*)(\.\d+)?([eE][-+]?\d+)?`, of which the last two make a float.
def number (cs : List Char) : Option Json := do
  let (negative, cs) :=
    match cs with
    | '-' :: cs => (true, cs)
    | cs        => (false, cs)
  let (whole, cs) := (cs.takeWhile digit, cs.dropWhile digit)
  guard (whole = ['0'] ∨ whole ≠ [] ∧ whole.head? ≠ some '0')
  let sign : Int := if negative then -1 else 1
  if cs = [] then
    return .int (sign * digits whole)
  else
    let (decimals, cs) ← fraction cs
    let e ← exponent cs
    return .float <| float <| sign * digits (whole ++ decimals) * 10 ^ (e - decimals.length)

-- A value that is neither a string nor a container.
def scalar (text : List Char) : Option Json :=
  match String.ofList text with
  | "null"      => some .null
  | "true"      => some <| .bool true
  | "false"     => some <| .bool false
  | "NaN"       => some <| .float .nan
  | "Infinity"  => some <| .float .posInf
  | "-Infinity" => some <| .float .negInf
  | _           => number text

-- `members[key] = value`
def set_item (key : String) (value : Json) : Fields → Fields
  | []        => [(key, value)]
  | kv :: kvs => if kv.1 = key then (key, value) :: kvs else kv :: set_item key value kvs

-- A container that is not closed, with what it holds so far. Of an object, `field` is within the
-- value of a key.
inductive Open
  | array (items : List Json)
  | object (members : Fields)
  | field (members : Fields) (key : String)

-- A string that is not closed: whether it is a key, its characters from the last to the first, and
-- the first half of a surrogate pair.
structure Text where
  is_key : Bool
  chars  : List Char := []
  high   : Option ℕ := none

-- What is due. A container that was just opened may be closed.
inductive Mode
  | value (opened : Bool)
  | key (opened : Bool)
  | colon (key : String)
  | string (t : Text)
  | escape (t : Text)
  | hex (t : Text) (digits : List Char)
  | scalar (text : List Char)
  | next
  | done (value : Json)

structure State where
  stack : List Open := []
  mode  : Mode := .value false

-- A value is complete.
def emit (stack : List Open) (value : Json) : Option State :=
  match stack with
  | []                          => some { stack := [], mode := .done value }
  | .array items :: stack       => some { stack := .array (items ++ [value]) :: stack, mode := .next }
  | .field members key :: stack =>
    some { stack := .object (set_item key value members) :: stack, mode := .next }
  | .object _ :: _              => none

-- The end of a container.
def close (stack : List Open) (c : Char) : Option State :=
  match stack with
  | .array items :: stack    => if c = ']' then emit stack (.arr items) else none
  | .object members :: stack => if c = '\x7d' then emit stack (.obj members) else none
  | _                        => none

-- What may follow a value.
def follow (s : State) (c : Char) : Option State :=
  match s.mode with
  | .done _ => if space c then some s else none
  | .next   =>
    if space c then some s
    else if c = ',' then
      match s.stack with
      | .array _ :: _  => some { s with mode := .value false }
      | .object _ :: _ => some { s with mode := .key false }
      | _              => none
    else close s.stack c
  | _       => none

def escapes : List (Char × Char) := [
  ('"', '"'), ('\\', '\\'), ('/', '/'), ('b', '\x08'), ('f', '\x0c'), ('n', '\n'), ('r', '\r'),
  ('t', '\t')]

def hex_digit (c : Char) : Option ℕ :=
  if digit c then some (c.toNat - 0x30)
  else if 0x61 ≤ c.toNat && c.toNat ≤ 0x66 then some (c.toNat - 0x61 + 10)
  else if 0x41 ≤ c.toNat && c.toNat ≤ 0x46 then some (c.toNat - 0x41 + 10)
  else none

-- A unit of UTF-16.
def unit (t : Text) (n : ℕ) : Option Text :=
  match t.high with
  | none   =>
    if 0xd800 ≤ n ∧ n < 0xdc00 then some { t with high := some n }
    else if 0xdc00 ≤ n ∧ n < 0xe000 then none
    else some { t with chars := Char.ofNat n :: t.chars }
  | some h =>
    if 0xdc00 ≤ n ∧ n < 0xe000 then
      some { t with chars := Char.ofNat (0x10000 + (h - 0xd800) * 0x400 + (n - 0xdc00)) :: t.chars, high := none }
    else none

def step (s : State) (c : Char) : Option State :=
  match s.mode with
  | .value opened =>
    if space c then some s
    else if c = '"' then some { s with mode := .string { is_key := false } }
    else if c = '[' then some { stack := .array [] :: s.stack, mode := .value true }
    else if c = '\x7b' then some { stack := .object [] :: s.stack, mode := .key true }
    else if plain c then some { s with mode := .scalar [c] }
    else if opened then close s.stack c
    else none
  | .key opened =>
    if space c then some s
    else if c = '"' then some { s with mode := .string { is_key := true } }
    else if opened then close s.stack c
    else none
  | .colon key =>
    if space c then some s
    else if c = ':' then
      match s.stack with
      | .object members :: stack => some { stack := .field members key :: stack, mode := .value false }
      | _                        => none
    else none
  | .string t =>
    if c = '\\' then some { s with mode := .escape t }
    else if t.high.isSome then none
    else if c = '"' then
      let text := String.ofList t.chars.reverse
      if t.is_key then some { s with mode := .colon text } else emit s.stack (.str text)
    else if c.toNat < 0x20 then none
    else some { s with mode := .string { t with chars := c :: t.chars } }
  | .escape t =>
    if c = 'u' then some { s with mode := .hex t [] }
    else if t.high.isSome then none
    else (escapes.lookup c).map fun e => { s with mode := .string { t with chars := e :: t.chars } }
  | .hex t ds => do
    guard (hex_digit c).isSome
    if ds.length < 3 then return { s with mode := .hex t (ds ++ [c]) }
    else
      let t ← unit t <| (ds ++ [c]).foldl (fun n d => 16 * n + (hex_digit d).getD 0) 0
      return { s with mode := .string t }
  | .scalar text =>
    if plain c then some { s with mode := .scalar (text ++ [c]) }
    else do
      let value ← scalar text
      let s ← emit s.stack value
      follow s c
  | .next | .done _ => follow s c

-- The value of a text that ends here.
def finish (s : State) : Option Json :=
  match s.mode, s.stack with
  | .done value,  _  => some value
  | .scalar text, [] => scalar text
  | _,            _  => none

end Loads

-- `json.loads(text)`
def loads (text : List Char) : Option Json :=
  (text.foldlM Loads.step {}).bind Loads.finish

namespace Loads

section Items

variable {fields : Fields} {key k : String} {value value' : Json}

theorem lookup_set_item :
    (set_item key value fields).lookup k = if k = key then some value else fields.lookup k := by
  induction fields with
  | nil               =>
    rw [set_item, List.lookup_cons]
    by_cases hk : k = key
    case pos => rw [if_pos hk, hk, beq_self_eq_true]
    case neg => rw [if_neg hk, beq_eq_false_iff_ne.mpr hk]
  | cons kv fields ih =>
    rw [set_item]
    by_cases hkv : kv.1 = key
    case pos =>
      rw [if_pos hkv, List.lookup_cons, List.lookup_cons, hkv]
      by_cases hk : k = key
      case pos => rw [if_pos hk, hk, beq_self_eq_true]
      case neg => rw [if_neg hk, beq_eq_false_iff_ne.mpr hk]
    case neg =>
      rw [if_neg hkv, List.lookup_cons, List.lookup_cons, ih]
      by_cases hk : k = kv.1
      case pos =>
        rw [hk, beq_self_eq_true]
        exact (if_neg hkv).symm
      case neg => rw [beq_eq_false_iff_ne.mpr hk]

theorem set_item_set_item :
    set_item key value' (set_item key value fields) = set_item key value' fields := by
  induction fields with
  | nil               => exact if_pos rfl
  | cons kv fields ih =>
    rw [set_item, set_item]
    by_cases hkv : kv.1 = key
    case pos => rw [if_pos hkv, if_pos hkv, set_item, if_pos rfl]
    case neg => rw [if_neg hkv, if_neg hkv, set_item, if_neg hkv, ih]

theorem set_item_of_lookup (h : fields.lookup key = some value) :
    set_item key value fields = fields := by
  induction fields with
  | nil               => cases h
  | cons kv fields ih =>
    rw [List.lookup_cons] at h
    rw [set_item]
    by_cases hkv : kv.1 = key
    case pos =>
      rw [hkv, beq_self_eq_true] at h
      rw [if_pos hkv, ← Option.some.inj h, ← hkv]
    case neg =>
      rw [beq_eq_false_iff_ne.mpr (Ne.symm hkv)] at h
      rw [if_neg hkv, ih h]

theorem mem_set_item {kv : String × Json} (hkv : kv ∈ set_item key value fields) :
    kv = (key, value) ∨ kv ∈ fields := by
  induction fields with
  | nil               => exact .inl <| List.mem_singleton.mp hkv
  | cons kv' fields ih =>
    rw [set_item] at hkv
    split at hkv
    case isTrue hkey =>
      exact (List.mem_cons.mp hkv).imp_right <| List.mem_cons_of_mem _
    case isFalse     =>
      rcases List.mem_cons.mp hkv with rfl | hkv
      · exact .inr <| .head _
      · exact (ih hkv).imp_right <| List.mem_cons_of_mem _

theorem set_item_of_not_mem (hkey : key ∉ fields.map (·.1)) :
    set_item key value fields = fields ++ [(key, value)] := by
  induction fields with
  | nil               => rfl
  | cons kv fields ih =>
    rw [List.map_cons, List.mem_cons, not_or] at hkey
    rw [set_item, if_neg (Ne.symm hkey.left), ih hkey.right, List.cons_append]

end Items

variable {p q : List Char} {c : Char}

-- After a whole value, only space may come.
theorem step_of_finish {s : State} {value : Json} (h : finish s = some value) (hs : ¬space c)
    (hp : ¬plain c) : step s c = none := by
  obtain ⟨stack, mode⟩ := s
  unfold finish at h
  split at h
  case h_1 value hm =>
    dsimp only at hm
    rw [hm]
    exact if_neg hs
  case h_2 text hm hst =>
    dsimp only at hm hst
    rw [hm, hst]
    simp only [step, if_neg hp, h, emit, follow, if_neg hs, Option.bind_eq_bind, Option.bind_some]
  case h_3         => cases h

-- No text is left that loads if one that does is cut before a character that JSON only has in
-- strings.
theorem loads_cut (hs : ¬space c) (hp : ¬plain c) (h : (loads (p ++ c :: q)).isSome) :
    loads p = none := by
  unfold loads at h ⊢
  rw [List.foldlM_append] at h
  cases hf : p.foldlM step {} with
  | none   => rfl
  | some s =>
    cases hv : finish s with
    | none       => exact hv
    | some value =>
      rw [hf] at h
      simp [List.foldlM_cons, step_of_finish hv hs hp] at h

-- What is no value is skipped before one, or refused.
theorem foldlM_start (hc : ∀ c ∈ p, step {} c = some {} ∨ step {} c = none) :
    p.foldlM step {} = some {} ∨ p.foldlM step {} = none := by
  induction p with
  | nil         => exact .inl rfl
  | cons c p ih =>
    rw [List.foldlM_cons]
    obtain hstep | hstep := hc c (.head _)
    · rw [hstep]
      exact ih fun d hd => hc d <| .tail _ hd
    · rw [hstep]
      exact .inr rfl

theorem loads_blank (hc : ∀ c ∈ p, step {} c = some {} ∨ step {} c = none) : loads p = none := by
  unfold loads
  obtain h | h := foldlM_start hc
  · rw [h]
    rfl
  · rw [h]
    rfl

theorem loads_refused (hp : ∀ c ∈ p, step {} c = some {} ∨ step {} c = none) (hc : step {} c = none) :
    loads (p ++ c :: q) = none := by
  unfold loads
  rw [List.foldlM_append]
  obtain h | h := foldlM_start hp
  · rw [h]
    simp [List.foldlM_cons, hc]
  · rw [h]
    rfl

end Loads
