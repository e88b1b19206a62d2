import Traceline.Datasets.Theorems.Order
import Traceline.Datasets.Canonical

-- What `json.dumps` writes with its keys in order, `json.loads` reads again.
namespace Datasets

open Loads (step emit close finish plain space digit Mode Open Text)

section Strings

variable {stack : List Open} {t : Text} {c : Char} {cs : List Char}

def hex_value (ds : List Char) : ℕ :=
  ds.foldl (fun n d => 16 * n + (Loads.hex_digit d).getD 0) 0

theorem hex_digit_digitChar : ∀ d < 16, Loads.hex_digit (Nat.digitChar d) = some d := by
  decide

theorem hex_digit_isSome {n : ℕ} : (Loads.hex_digit (Nat.digitChar (n % 16))).isSome :=
  Option.isSome_of_eq_some <| hex_digit_digitChar _ <| Nat.mod_lt _ (by decide)

theorem step_hex {ds : List Char} (hc : (Loads.hex_digit c).isSome) :
    step ⟨stack, .hex t ds⟩ c =
      if ds.length < 3 then some ⟨stack, .hex t (ds ++ [c])⟩
      else (Loads.unit t <| hex_value (ds ++ [c])).map fun t => ⟨stack, .string t⟩ := by
  rw [step]
  dsimp only
  rw [hc]
  split
  · rfl
  · exact (Option.map_eq_bind ..).symm

-- Four digits make a unit of UTF-16.
theorem foldlM_hex_digits {ds ds' : List Char} (hds' : ∀ d ∈ ds', (Loads.hex_digit d).isSome)
    (hlength : ds.length + ds'.length = 4) (hne : ds' ≠ []) :
    ds'.foldlM step ⟨stack, .hex t ds⟩ =
      (Loads.unit t <| hex_value (ds ++ ds')).map fun t => ⟨stack, .string t⟩ := by
  induction ds' generalizing ds with
  | nil          => exact absurd rfl hne
  | cons d ds' ih =>
    obtain ⟨hd, hds'⟩ := List.forall_mem_cons.mp hds'
    rw [List.length_cons] at hlength
    rw [List.foldlM_cons, step_hex hd]
    cases ds' with
    | nil      =>
      rw [if_neg (by simp only [List.length_nil] at hlength; omega)]
      exact bind_pure _
    | cons e _ =>
      rw [if_pos (by simp only [List.length_cons] at hlength; omega)]
      refine (ih hds' ?_ (List.cons_ne_nil _ _)).trans ?_
      · rw [List.length_append, List.length_singleton]
        omega
      · rw [List.append_assoc, List.singleton_append]

theorem hex_value_hex {n : ℕ} (hn : n < 0x10000) : hex_value (hex n) = n := by
  have hlt (m : ℕ) : m % 16 < 16 := Nat.mod_lt _ (by decide)
  simp only [hex_value, hex, List.map_cons, List.map_nil, List.foldl_cons, List.foldl_nil,
    hex_digit_digitChar _ (hlt _), Option.getD_some]
  omega

theorem hex_digits {n : ℕ} : ∀ d ∈ hex n, (Loads.hex_digit d).isSome := by
  simp only [hex, List.map_cons, List.map_nil, List.forall_mem_cons, hex_digit_isSome, true_and]
  exact List.forall_mem_nil _

theorem unit_of_lt {n : ℕ} (hn : n < 0xd800) (ht : t.high = none) :
    Loads.unit t n = some { t with chars := Char.ofNat n :: t.chars } := by
  rw [Loads.unit, ht]
  dsimp only
  rw [if_neg (by omega), if_neg (by omega)]

theorem step_escape {e : Char} (ht : t.high = none) (he : e ≠ 'u')
    (hlookup : Loads.escapes.lookup e = some c) :
    step ⟨stack, .escape t⟩ e = some ⟨stack, .string { t with chars := c :: t.chars }⟩ := by
  simp [step, ht, he, hlookup]

theorem escape_lookup {e : Char} (he : escape? c = some e) : e ≠ 'u' ∧ Loads.escapes.lookup e = some c := by
  unfold escape? at he
  split at he
  all_goals first
    | cases he
      decide
    | cases he

theorem escape_none (he : escape? c = none) : c ≠ '\\' ∧ c ≠ '"' := by
  constructor
  · rintro rfl
    cases he
  · rintro rfl
    cases he

-- A character of a string is read again, however it is written.
theorem foldlM_encode_char (ht : t.high = none) :
    (encode_char false c).foldlM step ⟨stack, .string t⟩ =
      some ⟨stack, .string { t with chars := c :: t.chars }⟩ := by
  have hbackslash : step ⟨stack, .string t⟩ '\\' = some ⟨stack, .escape t⟩ := rfl
  rw [encode_char]
  cases he : escape? c with
  | some e =>
    obtain ⟨hu, hlookup⟩ := escape_lookup he
    dsimp only
    rw [List.foldlM_cons, hbackslash]
    rw [Option.bind_eq_bind, Option.bind_some, List.foldlM_cons, step_escape ht hu hlookup]
    rfl
  | none   =>
    obtain ⟨hne, hquote⟩ := escape_none he
    dsimp only
    split
    case isTrue hlt  =>
      have hu : step ⟨stack, .escape t⟩ 'u' = some ⟨stack, .hex t []⟩ := rfl
      rw [unicode_escape, if_pos (by omega), List.foldlM_cons, hbackslash, Option.bind_eq_bind,
        Option.bind_some, List.foldlM_cons, hu, Option.bind_eq_bind, Option.bind_some,
        foldlM_hex_digits hex_digits rfl (List.cons_ne_nil _ _), List.nil_append,
        hex_value_hex (by omega), unit_of_lt (by omega) ht, Char.ofNat_toNat]
      rfl
    case isFalse hlt =>
      rw [Bool.false_and, if_neg Bool.false_ne_true, List.foldlM_cons, step]
      dsimp only
      rw [if_neg hne, ht, if_neg hquote, if_neg hlt]
      rfl

-- The characters of a string one after the other.
theorem foldlM_flatMap (ht : t.high = none) :
    (cs.flatMap (encode_char false)).foldlM step ⟨stack, .string t⟩ =
      some ⟨stack, .string { t with chars := cs.reverse ++ t.chars }⟩ := by
  induction cs generalizing t with
  | nil          => rfl
  | cons c cs ih =>
    rw [List.flatMap_cons, List.foldlM_append, foldlM_encode_char ht, Option.bind_eq_bind,
      Option.bind_some]
    refine (ih (t := { t with chars := c :: t.chars }) ht).trans ?_
    rw [List.reverse_cons, List.append_assoc, List.singleton_append]

theorem step_quote (ht : t.high = none) :
    step ⟨stack, .string t⟩ '"' =
      if t.is_key then some ⟨stack, .colon <| String.ofList t.chars.reverse⟩
      else emit stack (.str <| String.ofList t.chars.reverse) := by
  simp [step, ht]

-- A string up to its end.
theorem foldlM_string (is_key : Bool) (s : String) :
    (s.toList.flatMap (encode_char false) ++ ['"']).foldlM step ⟨stack, .string { is_key }⟩ =
      if is_key then some ⟨stack, .colon s⟩ else emit stack (.str s) := by
  rw [List.foldlM_append, foldlM_flatMap rfl, Option.bind_eq_bind, Option.bind_some,
    List.foldlM_cons, step_quote rfl]
  dsimp only
  rw [List.append_nil, List.reverse_reverse, String.ofList_toList]
  cases is_key
  · cases emit stack (.str s) <;> rfl
  · rfl

end Strings

section Numbers

variable {c : Char} {text : List Char} {n : ℕ}

theorem digit_of_isDigit (hc : c.isDigit) : digit c := by
  obtain ⟨hle, hge⟩ := Char.isDigit_iff_toNat.mp hc
  have hzero : '0'.toNat = 0x30 := rfl
  have hnine : '9'.toNat = 0x39 := rfl
  simp only [digit, Bool.and_eq_true, decide_eq_true_eq]
  omega

theorem digit_toDigits : ∀ c ∈ Nat.toDigits 10 n, digit c := fun _ hc =>
  digit_of_isDigit <| Nat.isDigit_of_mem_toDigits (by decide) (by decide) hc

-- No number is written with a zero before its digits.
theorem head_toDigits (hn : n ≠ 0) : (Nat.toDigits 10 n).head? ≠ some '0' := by
  induction n using Nat.strongRecOn with
  | ind n ih =>
    by_cases hlt : n < 10
    case pos =>
      have hdigit : ∀ n < 10, n ≠ 0 → [Nat.digitChar n].head? ≠ some '0' := by decide
      rw [Nat.toDigits_of_lt_base hlt]
      exact hdigit n hlt hn
    case neg =>
      rw [Nat.toDigits_of_base_le (by decide) (Nat.le_of_not_lt hlt), List.head?_append,
        Option.or_of_isSome]
      · exact ih (n / 10) (by omega) (by omega)
      · exact List.isSome_head?.mpr Nat.toDigits_ne_nil

-- The names that stand for values have no digits.
theorem scalar_of_digit (hc : c ∈ text) (hdigit : digit c) : Loads.scalar text = Loads.number text := by
  have hname (name : String) (hname : name.toList.any digit = false) : String.ofList text ≠ name := by
    rintro rfl
    rw [String.toList_ofList] at hname
    exact List.any_eq_false.mp hname c hc hdigit
  unfold Loads.scalar
  split
  case h_1 heq => exact absurd heq <| hname _ (by decide)
  case h_2 heq => exact absurd heq <| hname _ (by decide)
  case h_3 heq => exact absurd heq <| hname _ (by decide)
  case h_4 heq => exact absurd heq <| hname _ (by decide)
  case h_5 heq => exact absurd heq <| hname _ (by decide)
  case h_6 heq => exact absurd heq <| hname _ (by decide)
  case h_7     => rfl

theorem digits_toDigits : Loads.digits (Nat.toDigits 10 n) = n :=
  Nat.ofDigitChars_ten_toDigits

theorem whole_toDigits (n : ℕ) : Nat.toDigits 10 n = ['0'] ∨
    Nat.toDigits 10 n ≠ [] ∧ (Nat.toDigits 10 n).head? ≠ some '0' := by
  by_cases hn : n = 0
  · rw [hn]
    exact .inl rfl
  · exact .inr ⟨Nat.toDigits_ne_nil, head_toDigits hn⟩

theorem takeWhile_toDigits : (Nat.toDigits 10 n).takeWhile digit = Nat.toDigits 10 n :=
  List.takeWhile_eq_self_iff.mpr digit_toDigits

theorem dropWhile_toDigits : (Nat.toDigits 10 n).dropWhile digit = [] :=
  List.dropWhile_eq_nil_iff.mpr digit_toDigits

theorem number_toDigits : Loads.number (Nat.toDigits 10 n) = some (.int n) := by
  unfold Loads.number
  split
  case h_1 negative cs heq =>
    split at heq
    case h_1 ds hminus =>
      have hmem : '-' ∈ Nat.toDigits 10 n := hminus ▸ .head _
      cases digit_toDigits _ hmem
    case h_2           =>
      cases heq
      dsimp only
      rw [takeWhile_toDigits, dropWhile_toDigits, guard, if_pos (whole_toDigits n), digits_toDigits]
      simp

theorem number_minus_toDigits : Loads.number ('-' :: Nat.toDigits 10 n) = some (.int (-n)) := by
  unfold Loads.number
  split
  case h_1 negative cs heq =>
    have heq : (true, Nat.toDigits 10 n) = (negative, cs) := heq
    cases heq
    dsimp only
    rw [takeWhile_toDigits, dropWhile_toDigits, guard, if_pos (whole_toDigits n), digits_toDigits]
    simp

theorem plain_toDigits : ∀ c ∈ Nat.toDigits 10 n, plain c := by
  intro c hc
  have hdigit := Nat.isDigit_of_mem_toDigits (by decide) (by decide) hc
  rw [plain, Char.isAlphanum, hdigit, Bool.or_true, Bool.true_or]

-- An integer is read again, and its characters are those of a scalar.
theorem scalar_int (n : Int) : (toString n).toList ≠ [] ∧ (∀ c ∈ (toString n).toList, plain c) ∧
    Loads.scalar (toString n).toList = some (.int n) := by
  have hmem (n : ℕ) : ∃ c ∈ Nat.toDigits 10 n, digit c :=
    (List.exists_mem_of_ne_nil _ Nat.toDigits_ne_nil).imp fun c hc => ⟨hc, digit_toDigits c hc⟩
  cases n with
  | ofNat n   =>
    have htext : (toString (Int.ofNat n)).toList = Nat.toDigits 10 n := Nat.toList_repr
    obtain ⟨c, hc, hdigit⟩ := hmem n
    rw [htext, scalar_of_digit hc hdigit]
    exact ⟨Nat.toDigits_ne_nil, plain_toDigits, number_toDigits⟩
  | negSucc n =>
    have htext : (toString (Int.negSucc n)).toList = '-' :: Nat.toDigits 10 (n + 1) := by
      change ("-" ++ Nat.repr (n + 1)).toList = _
      rw [String.toList_append, Nat.toList_repr]
      rfl
    obtain ⟨c, hc, hdigit⟩ := hmem (n + 1)
    rw [htext, scalar_of_digit (List.mem_cons_of_mem _ hc) hdigit]
    exact ⟨List.cons_ne_nil _ _, List.forall_mem_cons.mpr ⟨rfl, plain_toDigits⟩, number_minus_toDigits⟩

end Numbers

section Values

variable {stack : List Open} {opened : Bool} {c : Char} {cs text : List Char} {v : Json} {s : Loads.State}

-- Where a value has ended: what comes next meets the container that it goes into.
structure Ended (stack : List Open) (v : Json) (s : Loads.State) : Prop where
  next : ∀ c, plain c = false → step s c = (emit stack v).bind (Loads.follow · c)
  last : stack = [] → finish s = some v

-- A text that is read as a value, wherever a value is due.
def Reads (cs : List Char) (v : Json) : Prop :=
  ∀ stack opened, (∀ v, (emit stack v).isSome) →
    ∃ s, cs.foldlM step ⟨stack, .value opened⟩ = some s ∧ Ended stack v s

theorem ended_of_emit (hs : emit stack v = some s) : Ended stack v s := by
  refine ⟨fun c _ => ?_, fun hstack => ?_⟩
  · rw [hs, Option.bind_some]
    unfold emit at hs
    split at hs
    all_goals cases hs
    all_goals rfl
  · subst hstack
    cases hs
    rfl

theorem ended_of_scalar (htext : Loads.scalar text = some v) : Ended stack v ⟨stack, .scalar text⟩ := by
  refine ⟨fun c hc => ?_, fun hstack => ?_⟩
  · rw [step]
    dsimp only
    rw [hc, htext]
    rfl
  · subst hstack
    exact htext

theorem plain_cases (hc : plain c) : space c = false ∧ c ≠ '"' ∧ c ≠ '[' ∧ c ≠ '\x7b' := by
  refine ⟨Bool.eq_false_iff.mpr fun hspace => ?_, ?_, ?_, ?_⟩
  · have hspaces : ∀ n ∈ [0x20, 0x09, 0x0a, 0x0d], plain (Char.ofNat n) = false := by decide
    have hnot := hspaces c.toNat <| of_decide_eq_true hspace
    rw [Char.ofNat_toNat, hc] at hnot
    cases hnot
  all_goals
    rintro rfl
    cases hc

theorem foldlM_plain (hcs : ∀ c ∈ cs, plain c) :
    cs.foldlM step ⟨stack, .scalar text⟩ = some ⟨stack, .scalar (text ++ cs)⟩ := by
  induction cs generalizing text with
  | nil          =>
    rw [List.append_nil]
    rfl
  | cons c cs ih =>
    obtain ⟨hc, hcs⟩ := List.forall_mem_cons.mp hcs
    have hstep : step ⟨stack, .scalar text⟩ c = some ⟨stack, .scalar (text ++ [c])⟩ := if_pos hc
    rw [List.foldlM_cons, hstep, Option.bind_eq_bind, Option.bind_some, ih hcs, List.append_assoc,
      List.singleton_append]

theorem reads_scalar (hne : cs ≠ []) (hcs : ∀ c ∈ cs, plain c) (hv : Loads.scalar cs = some v) :
    Reads cs v := by
  intro stack opened _
  refine ⟨_, ?_, ended_of_scalar hv⟩
  cases cs with
  | nil       => exact absurd rfl hne
  | cons c cs =>
    obtain ⟨hc, hcs⟩ := List.forall_mem_cons.mp hcs
    obtain ⟨hspace, hquote, hbracket, hbrace⟩ := plain_cases hc
    have hstep : step ⟨stack, .value opened⟩ c = some ⟨stack, .scalar [c]⟩ := by
      simp [step, hspace, hquote, hbracket, hbrace, hc]
    rw [List.foldlM_cons, hstep, Option.bind_eq_bind, Option.bind_some, foldlM_plain hcs]
    rfl

theorem reads_name (name : String) (hname : (!name.toList.isEmpty && name.toList.all plain) = true)
    (hv : Loads.scalar name.toList = some v) : Reads name.toList v := by
  obtain ⟨hne, hplain⟩ := Bool.and_eq_true_iff.mp hname
  refine reads_scalar (fun hnil => ?_) (List.all_eq_true.mp hplain) hv
  rw [hnil] at hne
  cases hne

theorem reads_of_emit
    (h : ∀ stack opened, cs.foldlM step ⟨stack, .value opened⟩ = emit stack v) : Reads cs v := by
  intro stack opened hsome
  obtain ⟨s, hs⟩ := Option.isSome_iff_exists.mp <| hsome v
  exact ⟨s, (h stack opened).trans hs, ended_of_emit hs⟩

theorem reads_string (s : String) : Reads (encode_string false s) (.str s) := by
  refine reads_of_emit fun stack opened => ?_
  have hstep : step ⟨stack, .value opened⟩ '"' = some ⟨stack, .string { is_key := false }⟩ := rfl
  rw [encode_string, List.foldlM_cons, hstep]
  exact foldlM_string false s

-- The items of an array up to its end.
theorem foldlM_items {ι : Type} {f : ι → List Char} {g : ι → Json} {xs : List ι} {items : List Json}
    (hxs : ∀ x ∈ xs, Reads (f x) (g x)) (hne : xs ≠ []) :
    (List.intercalate [','] (xs.map f) ++ [']']).foldlM step ⟨.array items :: stack, .value opened⟩ =
      emit stack (.arr (items ++ xs.map g)) := by
  induction xs generalizing items opened with
  | nil          => exact absurd rfl hne
  | cons x xs ih =>
    obtain ⟨hx, hxs⟩ := List.forall_mem_cons.mp hxs
    obtain ⟨s, hs, hended⟩ := hx (.array items :: stack) opened fun _ => rfl
    cases xs with
    | nil      =>
      have hclose : step s ']' = emit stack (.arr (items ++ [g x])) := hended.next ']' rfl
      rw [List.map_cons, List.map_nil, List.intercalate_singleton, List.foldlM_append, hs,
        Option.bind_eq_bind, Option.bind_some, List.foldlM_cons, hclose]
      exact bind_pure _
    | cons y _ =>
      have hcomma : step s ',' = some ⟨.array (items ++ [g x]) :: stack, .value false⟩ :=
        hended.next ',' rfl
      rw [List.map_cons, List.map_cons, List.intercalate_cons_cons, List.append_assoc,
        List.append_assoc, List.foldlM_append, hs, Option.bind_eq_bind, Option.bind_some,
        List.singleton_append, List.foldlM_cons, hcomma, Option.bind_eq_bind, Option.bind_some]
      refine (ih hxs (List.cons_ne_nil _ _)).trans ?_
      rw [List.append_assoc]
      rfl

theorem reads_array {ι : Type} {f : ι → List Char} {g : ι → Json} {xs : List ι}
    (hxs : ∀ x ∈ xs, Reads (f x) (g x)) : Reads (enclose '[' ']' (xs.map f)) (.arr (xs.map g)) := by
  refine reads_of_emit fun stack opened => ?_
  have hopen : step ⟨stack, .value opened⟩ '[' = some ⟨.array [] :: stack, .value true⟩ := rfl
  rw [enclose, List.foldlM_cons, hopen, Option.bind_eq_bind, Option.bind_some]
  by_cases hne : xs = []
  case pos =>
    subst hne
    exact bind_pure _
  case neg => exact foldlM_items hxs hne

-- A field up to its value.
theorem foldlM_key {members : Fields} (key : String) :
    (encode_string false key ++ [':']).foldlM step ⟨.object members :: stack, .key opened⟩ =
      some ⟨.field members key :: stack, .value false⟩ := by
  have hquote : step ⟨.object members :: stack, .key opened⟩ '"' =
      some ⟨.object members :: stack, .string { is_key := true }⟩ := rfl
  rw [encode_string, List.cons_append, List.foldlM_cons, hquote, Option.bind_eq_bind, Option.bind_some,
    List.foldlM_append, foldlM_string true key]
  rfl

-- The fields of an object up to its end.
theorem foldlM_fields {ι : Type} {k : ι → String} {f : ι → List Char} {g : ι → Json} {xs : List ι}
    {members : Fields} (hxs : ∀ x ∈ xs, Reads (f x) (g x)) (hne : xs ≠ [])
    (hkeys : (members.map (·.1) ++ xs.map k).Nodup) :
    (List.intercalate [','] (xs.map fun x => encode_field false (k x, f x)) ++ ['\x7d']).foldlM step
        ⟨.object members :: stack, .key opened⟩ =
      emit stack (.obj (members ++ xs.map fun x => (k x, g x))) := by
  induction xs generalizing members opened with
  | nil          => exact absurd rfl hne
  | cons x xs ih =>
    obtain ⟨hx, hxs⟩ := List.forall_mem_cons.mp hxs
    obtain ⟨s, hs, hended⟩ := hx (.field members (k x) :: stack) false fun _ => rfl
    have hitem : Loads.set_item (k x) (g x) members = members ++ [(k x, g x)] :=
      Loads.set_item_of_not_mem fun hmem => (List.nodup_append.mp hkeys).right.right _ hmem _ (.head _) rfl
    have hfield (rest : List Char) : (encode_field false (k x, f x) ++ rest).foldlM step
        ⟨.object members :: stack, .key opened⟩ = rest.foldlM step s := by
      have hparts : encode_field false (k x, f x) ++ rest =
          (encode_string false (k x) ++ [':']) ++ (f x ++ rest) := by
        simp only [encode_field, List.append_assoc, List.cons_append, List.nil_append]
      rw [hparts, List.foldlM_append, foldlM_key, Option.bind_eq_bind, Option.bind_some,
        List.foldlM_append, hs, Option.bind_eq_bind, Option.bind_some]
    cases xs with
    | nil      =>
      have hclose : step s '\x7d' = emit stack (.obj (members ++ [(k x, g x)])) :=
        hitem ▸ hended.next '\x7d' rfl
      rw [List.map_cons, List.map_nil, List.intercalate_singleton, hfield, List.foldlM_cons, hclose]
      exact bind_pure _
    | cons y _ =>
      have hcomma : step s ',' = some ⟨.object (members ++ [(k x, g x)]) :: stack, .key false⟩ :=
        hitem ▸ hended.next ',' rfl
      rw [List.map_cons, List.map_cons, List.intercalate_cons_cons, List.append_assoc,
        List.append_assoc, hfield, List.singleton_append, List.foldlM_cons, hcomma,
        Option.bind_eq_bind, Option.bind_some]
      refine (ih hxs (List.cons_ne_nil _ _) ?_).trans ?_
      · rwa [List.map_append, List.map_singleton, List.append_assoc, List.singleton_append]
      · rw [List.append_assoc]
        rfl

theorem reads_object {ι : Type} {k : ι → String} {f : ι → List Char} {g : ι → Json} {xs : List ι}
    (hxs : ∀ x ∈ xs, Reads (f x) (g x)) (hkeys : (xs.map k).Nodup) :
    Reads (enclose '\x7b' '\x7d' (xs.map fun x => encode_field false (k x, f x)))
      (.obj (xs.map fun x => (k x, g x))) := by
  refine reads_of_emit fun stack opened => ?_
  have hopen : step ⟨stack, .value opened⟩ '\x7b' = some ⟨.object [] :: stack, .key true⟩ := rfl
  rw [enclose, List.foldlM_cons, hopen, Option.bind_eq_bind, Option.bind_some]
  by_cases hne : xs = []
  case pos =>
    subst hne
    exact bind_pure _
  case neg => exact foldlM_fields hxs hne hkeys

end Values

section RoundTrip

variable {D : Digests} {j : Json}

theorem reads_float {x : PyFloat} (hx : ReadBack D x) : Reads (encode_float D x).toList (.float x) := by
  cases x with
  | finite q => exact reads_scalar hx.left hx.right.left hx.right.right
  | posInf   => exact reads_name "Infinity" (by decide) rfl
  | negInf   => exact reads_name "-Infinity" (by decide) rfl
  | nan      => exact reads_name "NaN" (by decide) rfl

-- What is written of a value is read as the value with its keys in order.
theorem reads_dumps (hj : Value D j) : Reads (dumps D false j) (sorted j) := by
  induction hj with
  | null       => exact reads_name "null" (by decide) rfl
  | bool b     =>
    cases b
    · exact reads_name "false" (by decide) rfl
    · exact reads_name "true" (by decide) rfl
  | int n      =>
    obtain ⟨hne, hplain, hscalar⟩ := scalar_int n
    exact reads_scalar hne hplain hscalar
  | float hx   => exact reads_float hx
  | str s      => exact reads_string s
  | arr hxs ih =>
    rw [dumps, dumps_list_eq, sorted_arr]
    exact reads_array ih
  | @obj kvs hkeys hkvs ih =>
    have hperm := List.perm_insertionSort (fun a b : String × Json => a.1 ≤ b.1) kvs
    have hdumps : sort_keys (dumps_fields D false kvs) =
        (Keys.sort kvs).map (Prod.map id (dumps D false)) := by
      rw [dumps_fields_eq]
      exact Keys.sort_map _ _
    rw [dumps, hdumps, sorted_obj, Keys.sort_map, List.map_map]
    refine reads_object (k := Prod.fst) (fun kv hkv => ih kv <| hperm.mem_iff.mp hkv) ?_
    exact (hperm.map _).nodup_iff.mpr hkeys

-- The round trip of a value through text.
theorem loads_dumps (hj : Value D j) : loads (dumps D false j) = some (sorted j) := by
  obtain ⟨s, hs, hended⟩ := reads_dumps hj [] false fun _ => rfl
  rw [loads]
  exact (congrArg (Option.bind · finish) hs).trans <| hended.last rfl

end RoundTrip

end Datasets
