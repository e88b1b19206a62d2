import Mathlib.Data.List.Basic

-- Base64 with padding, written in the alphabet that is safe in URLs. It is read strictly, in that
-- alphabet and the standard one: nothing else is skipped, and padding stands only where it is due.
namespace Base64

def digit (n : ℕ) : Char :=
  if n < 26 then Char.ofNat (65 + n)
  else if n < 52 then Char.ofNat (71 + n)
  else if n < 62 then Char.ofNat (n - 4)
  else if n = 62 then '-' else '_'

def sextet (c : Char) : Option ℕ :=
  if 'A' ≤ c ∧ c ≤ 'Z' then some (c.toNat - 65)
  else if 'a' ≤ c ∧ c ≤ 'z' then some (c.toNat - 71)
  else if '0' ≤ c ∧ c ≤ '9' then some (c.toNat + 4)
  else if c = '+' ∨ c = '-' then some 62
  else if c = '/' ∨ c = '_' then some 63
  else none

def encode : List UInt8 → List Char
  | []                => []
  | [x]               => [digit (x.toNat / 4), digit (x.toNat % 4 * 16), '=', '=']
  | [x, y]            =>
    [digit (x.toNat / 4), digit (x.toNat % 4 * 16 + y.toNat / 16), digit (y.toNat % 16 * 4), '=']
  | x :: y :: z :: bs =>
    digit (x.toNat / 4) :: digit (x.toNat % 4 * 16 + y.toNat / 16) ::
      digit (y.toNat % 16 * 4 + z.toNat / 64) :: digit (z.toNat % 64) :: encode bs

def decode : List Char → Option (List UInt8)
  | []                     => some []
  | a :: b :: c :: d :: cs => do
    let a ← sextet a
    let b ← sextet b
    if d = '=' ∧ cs = [] then
      if c = '=' then
        return [.ofNat (a * 4 + b / 16)]
      else
        let c ← sextet c
        return [.ofNat (a * 4 + b / 16), .ofNat (b * 16 + c / 4)]
    else
      let c ← sextet c
      let d ← sextet d
      return .ofNat (a * 4 + b / 16) :: .ofNat (b * 16 + c / 4) :: .ofNat (c * 64 + d) ::
        (← decode cs)
  | _                      => none

variable {bs : List UInt8} {cs : List Char}

theorem sextet_digit : ∀ n < 64, sextet (digit n) = some n := by
  decide

theorem digit_ne_pad : ∀ n < 64, digit n ≠ '=' := by
  decide

theorem ofNat_of_mod_eq {x : UInt8} {n : ℕ} (h : n % 256 = x.toNat) : UInt8.ofNat n = x := by
  refine UInt8.toNat_inj.mp ?_
  rw [UInt8.toNat_ofNat']
  exact h

theorem decode_encode : decode (encode bs) = some bs := by
  induction bs using encode.induct with
  | case1             => rfl
  | case2 x           =>
    have hx := x.toNat_lt
    rw [encode, decode, sextet_digit _ (by omega), sextet_digit _ (by omega)]
    have hbyte : UInt8.ofNat (x.toNat / 4 * 4 + x.toNat % 4 * 16 / 16) = x :=
      ofNat_of_mod_eq (by omega)
    exact congrArg (fun x => some [x]) hbyte
  | case3 x y         =>
    have hx := x.toNat_lt
    have hy := y.toNat_lt
    rw [encode, decode, sextet_digit _ (by omega), sextet_digit _ (by omega)]
    dsimp only [bind, Option.bind]
    rw [if_pos ⟨rfl, rfl⟩, if_neg (digit_ne_pad _ (by omega)), sextet_digit _ (by omega)]
    have hbyte : UInt8.ofNat (x.toNat / 4 * 4 + (x.toNat % 4 * 16 + y.toNat / 16) / 16) = x :=
      ofNat_of_mod_eq (by omega)
    have hbyte' : UInt8.ofNat
        ((x.toNat % 4 * 16 + y.toNat / 16) * 16 + y.toNat % 16 * 4 / 4) = y :=
      ofNat_of_mod_eq (by omega)
    exact congrArg₂ (fun x y => some [x, y]) hbyte hbyte'
  | case4 x y z bs ih =>
    have hx := x.toNat_lt
    have hy := y.toNat_lt
    have hz := z.toNat_lt
    rw [encode, decode, sextet_digit _ (by omega), sextet_digit _ (by omega)]
    dsimp only [bind, Option.bind]
    rw [if_neg fun h => digit_ne_pad _ (by omega) h.left, sextet_digit _ (by omega),
      sextet_digit _ (by omega)]
    dsimp only
    rw [ih]
    have hbyte : UInt8.ofNat (x.toNat / 4 * 4 + (x.toNat % 4 * 16 + y.toNat / 16) / 16) = x :=
      ofNat_of_mod_eq (by omega)
    have hbyte' : UInt8.ofNat ((x.toNat % 4 * 16 + y.toNat / 16) * 16 +
        (y.toNat % 16 * 4 + z.toNat / 64) / 4) = y :=
      ofNat_of_mod_eq (by omega)
    have hbyte'' : UInt8.ofNat
        ((y.toNat % 16 * 4 + z.toNat / 64) * 64 + z.toNat % 64) = z :=
      ofNat_of_mod_eq (by omega)
    rw [hbyte, hbyte', hbyte'']
    rfl

-- The characters that a text may have.
def readable (c : Char) : Prop :=
  (sextet c).isSome ∨ c = '='

theorem readable_of_decode (h : (decode cs).isSome) : ∀ c ∈ cs, readable c := by
  induction cs using decode.induct with
  | case1                => exact List.forall_mem_nil _
  | case2 a b c' d cs ih =>
    rw [decode] at h
    obtain ⟨bs, h⟩ := Option.isSome_iff_exists.mp h
    obtain ⟨m, ha, h⟩ := Option.bind_eq_some_iff.mp h
    obtain ⟨n, hb, h⟩ := Option.bind_eq_some_iff.mp h
    have ha : readable a := .inl <| ha ▸ rfl
    have hb : readable b := .inl <| hb ▸ rfl
    suffices hrest : readable c' ∧ readable d ∧ ∀ c ∈ cs, readable c by
      obtain ⟨hc', hd, hcs⟩ := hrest
      exact List.forall_mem_cons.mpr ⟨ha, List.forall_mem_cons.mpr ⟨hb,
        List.forall_mem_cons.mpr ⟨hc', List.forall_mem_cons.mpr ⟨hd, hcs⟩⟩⟩⟩
    split at h
    case isTrue hpad  =>
      refine ⟨?_, .inr hpad.left, hpad.right ▸ List.forall_mem_nil _⟩
      split at h
      case isTrue hc'  => exact .inr hc'
      case isFalse hc' =>
        obtain ⟨_, hc', -⟩ := Option.bind_eq_some_iff.mp h
        exact .inl <| hc' ▸ rfl
    case isFalse hpad =>
      obtain ⟨_, hc', h⟩ := Option.bind_eq_some_iff.mp h
      obtain ⟨_, hd, h⟩ := Option.bind_eq_some_iff.mp h
      obtain ⟨_, hcs, -⟩ := Option.bind_eq_some_iff.mp h
      exact ⟨.inl <| hc' ▸ rfl, .inl <| hd ▸ rfl, ih (hcs ▸ rfl)⟩
  | case3 cs hnil hcons  =>
    rw [decode] at h
    · cases h
    · exact hnil
    · exact hcons

end Base64
