import Mathlib.Algebra.BigOperators.Group.List.Basic
import Traceline.Datasets.Canonical

-- When the two texts that a case is identified by are one.
namespace Datasets

mutual

-- The characters of the strings and the keys of a document.
def chars : Json → List Char
  | .str s   => s.toList
  | .arr xs  => chars_list xs
  | .obj kvs => chars_fields kvs
  | .null | .bool _ | .int _ | .float _ => []

def chars_list : List Json → List Char
  | []      => []
  | x :: xs => chars x ++ chars_list xs

def chars_fields : List (String × Json) → List Char
  | []            => []
  | (k, v) :: kvs => k.toList ++ (chars v ++ chars_fields kvs)

end

section

variable {D : Digests} {b : Bool} {c : Char} {cs : List Char} {s : String} {j : Json}
variable {parts : List (List Char)}

-- How many characters of a text are beyond what `ensure_ascii` keeps.
def highs (cs : List Char) : ℕ :=
  cs.countP high

@[simp]
theorem highs_nil : highs [] = 0 :=
  rfl

@[simp]
theorem highs_append {ds : List Char} : highs (cs ++ ds) = highs cs + highs ds :=
  List.countP_append

@[simp]
theorem highs_cons : highs (c :: cs) = highs cs + if high c then 1 else 0 :=
  List.countP_cons

theorem highs_eq_zero_iff : highs cs = 0 ↔ ∀ c ∈ cs, ¬high c :=
  List.countP_eq_zero

theorem highs_flatMap {f : Char → List Char} :
    highs (cs.flatMap f) = (cs.map fun c => highs (f c)).sum :=
  List.countP_flatMap

theorem highs_hex {n : ℕ} : highs (hex n) = 0 := by
  have hdigit : ∀ m < 16, high (Nat.digitChar m) = false := by decide
  have hmod (m : ℕ) : high (Nat.digitChar (m % 16)) = false :=
    hdigit _ <| Nat.mod_lt m (by decide)
  simp [hex, hmod]

theorem highs_unicode_escape {n : ℕ} : highs (unicode_escape n) = 0 := by
  have hu : high 'u' = false ∧ high '\\' = false := by decide
  unfold unicode_escape
  split <;> simp [highs_hex, hu]

theorem high_escape {e : Char} (h : escape? c = some e) : high c = false ∧ high e = false := by
  unfold escape? at h
  split at h <;> cases h <;> decide

theorem highs_encode_char : highs (encode_char true c) = 0 := by
  unfold encode_char
  split
  case h_1 e he =>
    have hu : high '\\' = false := by decide
    simp [hu, (high_escape he).right]
  case h_2      =>
    split
    · exact highs_unicode_escape
    · split
      · exact highs_unicode_escape
      · simp_all

theorem highs_encode_char_plain : highs (encode_char false c) = if high c then 1 else 0 := by
  unfold encode_char
  split
  case h_1 e he =>
    have hu : high '\\' = false := by decide
    simp [hu, high_escape he]
  case h_2      =>
    split
    · have hlow : high c = false := by
        simp only [high, decide_eq_false_iff_not]
        omega
      rw [highs_unicode_escape, hlow]
      rfl
    · simp

theorem encode_char_eq (h : ¬high c) : encode_char true c = encode_char false c := by
  unfold encode_char
  rw [eq_false_of_ne_true h, Bool.and_false, Bool.and_false]

theorem highs_encode_string : highs (encode_string true s) = 0 := by
  have hq : high '"' = false := by decide
  simp [encode_string, highs_flatMap, highs_encode_char, hq]

theorem highs_encode_string_plain : highs (encode_string false s) = highs s.toList := by
  have hq : high '"' = false := by decide
  have hsum : (s.toList.map fun c => highs (encode_char false c)).sum = highs s.toList := by
    induction s.toList with
    | nil          => rfl
    | cons c cs ih =>
      rw [List.map_cons, List.sum_cons, ih, highs_encode_char_plain, highs_cons, Nat.add_comm]
  simp [encode_string, highs_flatMap, hsum, hq]

theorem encode_string_eq (h : ∀ c ∈ s.toList, ¬high c) :
    encode_string true s = encode_string false s := by
  rw [encode_string, encode_string, List.flatMap_congr fun c hc => encode_char_eq (h c hc)]

theorem highs_intercalate : highs (List.intercalate [','] parts) = (parts.map highs).sum := by
  have hcomma : highs [','] = 0 := by decide
  induction parts with
  | nil             => rfl
  | cons part parts ih =>
    cases parts with
    | nil          => simp [List.intercalate]
    | cons next parts =>
      rw [List.intercalate_cons_cons, highs_append, highs_append, ih, hcomma]
      simp

theorem highs_enclose {first last : Char} (h : high first = false ∧ high last = false) :
    highs (enclose first last parts) = (parts.map highs).sum := by
  simp [enclose, highs_intercalate, h]

theorem highs_fields {kvs : List (String × List Char)} {f : Bool} :
    ((sort_keys kvs).map (highs ∘ encode_field f)).sum = (kvs.map (highs ∘ encode_field f)).sum :=
  List.Perm.sum_eq <| (List.perm_insertionSort _ kvs).map _

-- Escaping takes exactly the characters beyond ASCII out of a text.
theorem highs_dumps : highs (dumps D true j) + highs (chars j) = highs (dumps D false j) := by
  induction j using Json.induct with
  | str s      =>
    rw [dumps, dumps, chars, highs_encode_string, highs_encode_string_plain, Nat.zero_add]
  | arr xs ih  =>
    have hb : high '[' = false ∧ high ']' = false := by decide
    rw [dumps, dumps, chars, highs_enclose hb, highs_enclose hb]
    induction xs with
    | nil           => rfl
    | cons x xs ih' =>
      obtain ⟨hx, hxs⟩ := List.forall_mem_cons.mp ih
      rw [dumps_list, dumps_list, chars_list, List.map_cons, List.map_cons, List.sum_cons,
        List.sum_cons, highs_append, ← hx, ← ih' hxs]
      omega
  | obj kvs ih =>
    have hb : high '\x7b' = false ∧ high '\x7d' = false := by decide
    have hcolon : high ':' = false := by decide
    rw [dumps, dumps, chars, highs_enclose hb, highs_enclose hb, List.map_map, List.map_map,
      highs_fields, highs_fields]
    induction kvs with
    | nil            => rfl
    | cons kv kvs ih' =>
      obtain ⟨hkv, hkvs⟩ := List.forall_mem_cons.mp ih
      obtain ⟨k, v⟩ := kv
      rw [dumps_fields, dumps_fields, chars_fields, List.map_cons, List.map_cons, List.sum_cons,
        List.sum_cons, highs_append, highs_append, ← ih' hkvs]
      simp only [Function.comp_apply, encode_field, highs_append, highs_cons, hcolon,
        highs_encode_string, highs_encode_string_plain, ← hkv]
      simp only [Bool.false_eq_true, if_false]
      omega
  | bool b     => cases b <;> rfl
  | _          => rfl

theorem chars_of_key {kvs : List (String × Json)} {kv : String × List Char}
    (h : kv ∈ dumps_fields D b kvs) : ∀ c ∈ kv.1.toList, c ∈ chars_fields kvs := by
  induction kvs with
  | nil             => cases h
  | cons kv' kvs ih =>
    obtain ⟨k, v⟩ := kv'
    intro c hc
    rw [chars_fields]
    rw [dumps_fields] at h
    cases h with
    | head        => exact List.mem_append_left _ hc
    | tail _ htail => exact List.mem_append_right _ <| List.mem_append_right _ <| ih htail c hc

theorem dumps_eq (h : ∀ c ∈ chars j, ¬high c) : dumps D true j = dumps D false j := by
  induction j using Json.induct with
  | str s      => rw [dumps, dumps, encode_string_eq h]
  | arr xs ih  =>
    have hlist : dumps_list D true xs = dumps_list D false xs := by
      rw [chars] at h
      induction xs with
      | nil           => rfl
      | cons x xs ih' =>
        obtain ⟨hx, hxs⟩ := List.forall_mem_cons.mp ih
        rw [chars_list, List.forall_mem_append] at h
        rw [dumps_list, dumps_list, hx h.left, ih' hxs h.right]
    rw [dumps, dumps, hlist]
  | obj kvs ih =>
    rw [chars] at h
    have hfields : dumps_fields D true kvs = dumps_fields D false kvs := by
      induction kvs with
      | nil             => rfl
      | cons kv kvs ih' =>
        obtain ⟨hkv, hkvs⟩ := List.forall_mem_cons.mp ih
        obtain ⟨k, v⟩ := kv
        rw [chars_fields, List.forall_mem_append, List.forall_mem_append] at h
        rw [dumps_fields, dumps_fields, hkv h.right.left, ih' hkvs h.right.right]
    have hmap : (sort_keys (dumps_fields D false kvs)).map (encode_field true) =
        (sort_keys (dumps_fields D false kvs)).map (encode_field false) := by
      refine List.map_congr_left fun kv hkv => ?_
      have hmem := (List.perm_insertionSort _ _).mem_iff.mp hkv
      rw [encode_field, encode_field, encode_string_eq fun c hc => h c (chars_of_key hmem c hc)]
    rw [dumps, dumps, hfields, hmap]
  | bool b     => cases b <;> rfl
  | _          => rfl

theorem dumps_eq_iff : dumps D false j = dumps D true j ↔ ∀ c ∈ chars j, ¬high c := by
  refine ⟨fun h => ?_, fun h => (dumps_eq h).symm⟩
  have hcount := highs_dumps (D := D) (j := j)
  rw [h] at hcount
  exact highs_eq_zero_iff.mp (by omega)

end

-- The two services identify an input alike where no string or key of it has a character beyond the
-- tilde.
theorem case_keys_agree_iff (D : Digests) (case_input : Json) (key : String)
    (collision_free : D.sha256 (String.ofList (dumps D false case_input)) =
      D.sha256 (String.ofList (dumps D true case_input)) →
      dumps D false case_input = dumps D true case_input)
    (h : _digest D case_input = some key) :
    key = case_key D case_input ↔ ∀ c ∈ chars case_input, c ≤ '~' := by
  have htilde (c : Char) : c ≤ '~' ↔ ¬high c := by
    have hval : c ≤ '~' ↔ c.toNat ≤ '~'.toNat := Iff.rfl
    rw [hval, high, decide_eq_true_eq]
    have hnat : '~'.toNat = 126 := rfl
    omega
  unfold _digest canonical_json at h
  split at h
  case isFalse => cases h
  case isTrue  =>
    cases h
    rw [forall₂_congr fun c _ => htilde c, ← dumps_eq_iff (D := D), case_key]
    constructor
    · exact collision_free
    · intro he
      rw [he]

-- The digests of three texts.
def digests : Digests where
  repr _   := "0.5"
  sha256 s :=
    if s = "\x7b\"q\":\"hi\"\x7d" then
      "fca03ff443ac59e006e72573c15a72b8eed50b10ba49bd6ed62938a2cf8967a0"
    else if s = "\x7b\"q\":\"é\"\x7d" then
      "4b8e3fd40acdad6181314bfef3c1364b9fbbc556a94ee233add8fb224f27d660"
    else if s = "\x7b\"q\":\"\\u00e9\"\x7d" then
      "ade0f283876835784788e2e8e961dfa9f78e4a1dc63a50eabd8fbdb2ea2ee5cd"
    else ""

theorem case_keys_agree_iff_hi :
    "fca03ff443ac59e006e72573c15a72b8eed50b10ba49bd6ed62938a2cf8967a0" =
      case_key digests (.obj [("q", .str "hi")]) ↔ ∀ c ∈ chars (.obj [("q", .str "hi")]), c ≤ '~' :=
  case_keys_agree_iff digests (.obj [("q", .str "hi")]) _ (fun _ => by decide)
    (by decide)

theorem case_keys_differ : _digest digests (.obj [("q", .str "é")]) =
    some "4b8e3fd40acdad6181314bfef3c1364b9fbbc556a94ee233add8fb224f27d660" ∧
    case_key digests (.obj [("q", .str "é")]) =
    "ade0f283876835784788e2e8e961dfa9f78e4a1dc63a50eabd8fbdb2ea2ee5cd" := by
  decide

end Datasets
