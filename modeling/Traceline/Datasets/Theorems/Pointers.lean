import Traceline.Datasets.Import
import Traceline.Library.Except
import Traceline.Targets.Theorems.Pinned
import Traceline.Targets.Theorems.Tokens

-- What the two readers of JSON Pointers accept beyond the standard.
namespace Datasets

open Targets (Libraries apply_pointer replace_pair replace_pair_cons tokens)

-- One token as the import reads it.
def Step (int : String → Option Int) (j : Json) (raw : List Char) (v : Json) : Prop :=
  follow int j (Targets.unescape raw) = some v

-- The containers on the way to a value, each with the token that is read there.
inductive Path (int : String → Option Int) : Json → List (Json × List Char) → Json → Prop
  | nil : Path int j [] j
  | cons : Step int j raw v → Path int v ps w → Path int j ((j, raw) :: ps) w

-- The token has no other escapes than the standard's, and it is an index in the standard's form
-- where the container is an array.
def Allowed (p : Json × List Char) : Prop :=
  ∃ token, Standard.unescape p.2 = some token ∧
    ∀ xs, p.1 = .arr xs → (Standard.index token).isSome

section

variable {int : String → Option Int} {cs raw : List Char} {raws : List (List Char)}
variable {j v w : Json} {ps : List (Json × List Char)}

theorem unescape_eq {token : List Char} (h : Standard.unescape raw = some token) :
    Targets.unescape raw = String.ofList token := by
  rw [Targets.unescape]
  congr 1
  fun_induction Standard.unescape raw generalizing token with
  | case1           =>
    cases h
    rfl
  | case2 cs ih     =>
    obtain ⟨rest, hrest, rfl⟩ := Option.map_eq_some_iff.mp h
    have hfirst : replace_pair '~' '1' '/' ('~' :: '0' :: cs) =
        '~' :: '0' :: replace_pair '~' '1' '/' cs := by
      rw [replace_pair, if_neg (by decide), replace_pair_cons (by decide)]
    rw [hfirst, replace_pair, if_pos ⟨rfl, rfl⟩, ih hrest]
  | case3 cs ih     =>
    obtain ⟨rest, hrest, rfl⟩ := Option.map_eq_some_iff.mp h
    have hfirst : replace_pair '~' '1' '/' ('~' :: '1' :: cs) = '/' :: replace_pair '~' '1' '/' cs := by
      rw [replace_pair, if_pos ⟨rfl, rfl⟩]
    rw [hfirst, replace_pair_cons (by decide), ih hrest]
  | case4           => cases h
  | case5 c cs _ _ hne ih =>
    obtain ⟨rest, hrest, rfl⟩ := Option.map_eq_some_iff.mp h
    rw [replace_pair_cons hne, replace_pair_cons hne, ih hrest]

-- The way to a value is there where the tokens lead to it.
theorem path_iff : (raws.map Targets.unescape).foldlM (follow int) j = some v ↔
    ∃ ps, Path int j ps v ∧ ps.map (·.2) = raws := by
  induction raws generalizing j with
  | nil           =>
    constructor
    · intro h
      cases h
      exact ⟨[], .nil, rfl⟩
    · rintro ⟨ps, h, hps⟩
      cases List.map_eq_nil_iff.mp hps
      cases h
      rfl
  | cons raw raws ih =>
    rw [List.map_cons, List.foldlM_cons, Option.bind_eq_bind, Option.bind_eq_some_iff]
    constructor
    · rintro ⟨w, hw, h⟩
      obtain ⟨ps, hpath, hps⟩ := ih.mp h
      exact ⟨(j, raw) :: ps, .cons hw hpath, by rw [List.map_cons, hps]⟩
    · rintro ⟨ps, h, hps⟩
      cases h with
      | nil              => cases hps
      | cons hstep hpath =>
        obtain ⟨rfl, htail⟩ := List.cons.inj hps
        exact ⟨_, hstep, ih.mpr ⟨_, hpath, htail⟩⟩

-- What `int` makes of the numerals that the standard allows.
def Decimal (int : String → Option Int) : Prop :=
  ∀ n : ℕ, int (String.ofList (Nat.toDigits 10 n)) = some (n : Int)

theorem index_some {n : ℕ} (h : Standard.index cs = some n) : Nat.toDigits 10 n = cs := by
  unfold Standard.index at h
  dsimp only at h
  split at h
  · cases h
    assumption
  · cases h

theorem element_ofNat {xs : List Json} {n : ℕ} : element xs n = xs[n]? := by
  rw [element, if_pos (Int.natCast_nonneg n), Int.toNat_natCast]

-- What the standard reads is read, and allowed.
theorem step_of_standard (hint : Decimal int) (h : Standard.step j raw = some v) :
    Step int j raw v ∧ Allowed (j, raw) := by
  obtain ⟨token, htoken, h⟩ := Option.bind_eq_some_iff.mp h
  rw [Step, unescape_eq htoken]
  cases j with
  | obj kvs => exact ⟨h, token, htoken, nofun⟩
  | arr xs  =>
    obtain ⟨n, hn, h⟩ := Option.bind_eq_some_iff.mp h
    constructor
    · rw [follow, ← index_some hn, hint, Option.bind_some, element_ofNat, h]
    · exact ⟨token, htoken, fun _ _ => by rw [hn]; rfl⟩
  | _       => cases h

theorem standard_of_step (hint : Decimal int) (h : Step int j raw v) (hallow : Allowed (j, raw)) :
    Standard.step j raw = some v := by
  obtain ⟨token, htoken, hindex⟩ := hallow
  rw [Step, unescape_eq htoken] at h
  rw [Standard.step, htoken]
  cases j with
  | obj kvs => exact h
  | arr xs  =>
    obtain ⟨n, hn⟩ := Option.isSome_iff_exists.mp (hindex xs rfl)
    rw [follow, ← index_some hn, hint, Option.bind_some, element_ofNat] at h
    simpa [hn] using h
  | _       => cases h

theorem path_of_standard (hint : Decimal int) (h : raws.foldlM Standard.step j = some v) :
    ∃ ps, Path int j ps v ∧ ps.map (·.2) = raws ∧ ∀ p ∈ ps, Allowed p := by
  induction raws generalizing j with
  | nil           =>
    cases h
    exact ⟨[], .nil, rfl, List.forall_mem_nil _⟩
  | cons raw raws ih =>
    rw [List.foldlM_cons, Option.bind_eq_bind, Option.bind_eq_some_iff] at h
    obtain ⟨w, hw, h⟩ := h
    obtain ⟨hstep, hallow⟩ := step_of_standard hint hw
    obtain ⟨ps, hpath, hps, hall⟩ := ih h
    exact ⟨(j, raw) :: ps, .cons hstep hpath, by rw [List.map_cons, hps],
      List.forall_mem_cons.mpr ⟨hallow, hall⟩⟩

theorem standard_of_path (hint : Decimal int) (h : Path int j ps v) (hall : ∀ p ∈ ps, Allowed p) :
    (ps.map (·.2)).foldlM Standard.step j = some v := by
  induction h with
  | nil               => rfl
  | cons hstep _ ih   =>
    obtain ⟨hallow, hall⟩ := List.forall_mem_cons.mp hall
    rw [List.map_cons, List.foldlM_cons, standard_of_step hint hstep hallow]
    exact ih hall

-- There is one way that the tokens go.
theorem path_unique {ps' : List (Json × List Char)} {w' : Json} (h : Path int j ps v)
    (h' : Path int j ps' w') (hps : ps.map (·.2) = ps'.map (·.2)) : ps = ps' := by
  induction h generalizing ps' w' with
  | nil                => exact (List.map_eq_nil_iff.mp hps.symm).symm
  | cons hstep _ ih    =>
    cases h' with
    | nil                => cases hps
    | cons hstep' hpath' =>
      obtain ⟨rfl, htail⟩ := List.cons.inj hps
      obtain rfl := Option.some.inj <| hstep.symm.trans hstep'
      rw [ih hpath' htail]

end

section

variable {L : Libraries} {token : String} {raws : List (List Char)} {j v : Json}
variable {ps : List (Json × List Char)}

-- The mapping of a request reads a token as the import does, but for an index from the end.
theorem follow_of_mapping (h : Targets.follow L j token = .ok v) : follow L.int j token = some v := by
  unfold Targets.follow at h
  dsimp only at h
  cases j with
  | arr xs  =>
    dsimp only at h
    rw [follow]
    cases hi : L.int token with
    | none   =>
      rw [hi] at h
      cases h
    | some i =>
      rw [hi] at h
      dsimp only at h
      split at h
      case isTrue      => cases h
      case isFalse hle =>
        rw [Option.bind_some, element, if_pos (Int.not_lt.mp hle)]
        split at h
        case h_1 x hx =>
          cases h
          exact hx
        case h_2      => cases h
  | obj kvs =>
    dsimp only at h
    rw [follow]
    split at h
    case h_1 x hx =>
      cases h
      exact hx
    case h_2      => cases h
  | _       => cases h

theorem mapping_of_standard (hint : Decimal L.int) {raw : List Char}
    (h : Standard.step j raw = some v) : Targets.follow L j (Targets.unescape raw) = .ok v := by
  obtain ⟨token, htoken, h⟩ := Option.bind_eq_some_iff.mp h
  rw [unescape_eq htoken]
  unfold Targets.follow
  dsimp only
  cases j with
  | obj kvs =>
    dsimp only at h ⊢
    rw [h]
  | arr xs  =>
    obtain ⟨n, hn, h⟩ := Option.bind_eq_some_iff.mp h
    dsimp only
    rw [← index_some hn, hint]
    dsimp only
    rw [if_neg (Int.not_lt.mpr (Int.natCast_nonneg n)), Int.toNat_natCast, h]
  | _       => cases h

theorem foldlM_of_mapping {tokens : List String} (h : tokens.foldlM (Targets.follow L) j = .ok v) :
    tokens.foldlM (follow L.int) j = some v := by
  induction tokens generalizing j with
  | nil             =>
    cases h
    rfl
  | cons token tokens ih =>
    rw [List.foldlM_cons] at h ⊢
    obtain ⟨w, hw, h⟩ := Except.bind_eq_ok_iff.mp h
    rw [follow_of_mapping hw]
    exact ih h

theorem mapping_of_standard_run (hint : Decimal L.int) (h : raws.foldlM Standard.step j = some v) :
    (raws.map Targets.unescape).foldlM (Targets.follow L) j = .ok v := by
  induction raws generalizing j with
  | nil           =>
    cases h
    rfl
  | cons raw raws ih =>
    rw [List.foldlM_cons, Option.bind_eq_bind, Option.bind_eq_some_iff] at h
    obtain ⟨w, hw, h⟩ := h
    rw [List.map_cons, List.foldlM_cons, mapping_of_standard hint hw]
    exact ih h

end

-- Both readers make of a pointer what the standard does.
structure Agree (L : Libraries) (document : Json) (pointer : String) : Prop where
  dataset : (_pointer L.int document (some pointer)).toOption.join = Standard.evaluate document pointer
  mapping : (apply_pointer L document (.str pointer)).toOption = Standard.evaluate document pointer


-- The three readers, once the pointer is taken apart.
inductive Parsed (L : Libraries) (document : Json) (pointer : String) : Prop
  | ill_formed : Standard.references pointer = none →
    (_pointer L.int document (some pointer)).toOption.join = none →
    (apply_pointer L document (.str pointer)).toOption = none → Parsed L document pointer
  | well_formed {raws : List (List Char)} : Standard.references pointer = some raws →
    (_pointer L.int document (some pointer)).toOption.join =
      (raws.map Targets.unescape).foldlM (follow L.int) document →
    apply_pointer L document (.str pointer) =
      (raws.map Targets.unescape).foldlM (Targets.follow L) document → Parsed L document pointer

theorem parsed (L : Libraries) (document : Json) (pointer : String) : Parsed L document pointer := by
  cases hp : pointer.toList with
  | nil       =>
    have hempty : pointer = "" := String.toList_inj.mp hp
    subst hempty
    exact .well_formed (show Standard.references "" = some [] from rfl) rfl rfl
  | cons c cs =>
    have hne : pointer ≠ "" := by
      rintro rfl
      cases hp
    by_cases hc : c = '/'
    case pos =>
      subst hc
      have href : Standard.references pointer = some (cs.splitOn '/') := by
        rw [Standard.references, hp]
        rfl
      have htokens : tokens pointer = (cs.splitOn '/').map Targets.unescape := by
        rw [tokens, hp]
        rfl
      refine .well_formed href ?_ ?_
      · rw [_pointer, if_neg hne, if_neg (by rw [hp]; exact fun h => h rfl), htokens]
        rfl
      · rw [apply_pointer, if_neg hne, if_neg (by rw [hp]; exact fun h => h rfl), htokens]
    case neg =>
      have hhead : pointer.toList.head? ≠ some '/' := by
        rw [hp]
        exact fun h => hc (Option.some.inj h)
      refine .ill_formed ?_ ?_ ?_
      · unfold Standard.references
        split
        case h_1 h => rw [hp] at h; cases h
        case h_2 h =>
          rw [hp] at h
          exact absurd (List.cons.inj h).left hc
        case h_3   => rfl
      · rw [_pointer, if_neg hne, if_pos hhead]
        rfl
      · rw [apply_pointer, if_neg hne, if_pos hhead]
        rfl

-- `int`, of ASCII digits with a minus sign or without one.
def ascii_int (s : String) : Option Int :=
  match s.toList with
  | '-' :: cs => (digits cs).map (-·)
  | cs        => digits cs
where
  digits (cs : List Char) : Option Int :=
    if cs ≠ [] ∧ cs.all Char.isDigit then some (Nat.ofDigitChars 10 cs 0) else none

def readers : Libraries :=
  { Targets.Answering.libraries with int := ascii_int }

theorem decimal_readers : Decimal readers.int := by
  intro n
  have hall : (Nat.toDigits 10 n).all Char.isDigit :=
    List.all_eq_true.mpr fun c hc => Nat.isDigit_of_mem_toDigits (by decide) (by decide) hc
  have hne : Nat.toDigits 10 n ≠ [] := Nat.toDigits_ne_nil
  change ascii_int _ = _
  unfold ascii_int
  rw [String.toList_ofList]
  split
  case h_1 cs h =>
    rw [h] at hall
    cases hall
  case h_2      =>
    rw [ascii_int.digits, if_pos ⟨hne, hall⟩, Nat.ofDigitChars_ten_toDigits]

end Datasets
