-- Kleene's three-valued logic. The unknown truth value is none.
abbrev Kleene := Option Bool

namespace Kleene

def and : Kleene → Kleene → Kleene
  | some false, _          => some false
  | _,          some false => some false
  | some true,  some true  => some true
  | _,          _          => none

def or : Kleene → Kleene → Kleene
  | some true,  _          => some true
  | _,          some true  => some true
  | some false, some false => some false
  | _,          _          => none

def not : Kleene → Kleene :=
  Option.map (!·)

-- The order of information, in which the unknown value may become either of the others.
def Informs (a b : Kleene) : Prop :=
  a = none ∨ a = b

variable {a b a' b' : Kleene} {v : Bool}

namespace Informs

theorem refl : Informs a a :=
  .inr rfl

theorem eq_some (h : Informs a b) (ha : a = some v) : b = some v := by
  cases h
  case inl hn => exact absurd (hn.symm.trans ha) nofun
  case inr he => exact he ▸ ha

-- The connectives are monotone.
theorem and (ha : Informs a a') (hb : Informs b b') : Informs (a.and b) (a'.and b') := by
  cases ha
  case inl ha =>
    subst ha
    cases hb
    case inl hb => subst hb; exact .inl rfl
    case inr hb =>
      subst hb
      match a', b with
      | _,          none       => exact .inl rfl
      | _,          some true  => exact .inl rfl
      | none,       some false => exact .inr rfl
      | some true,  some false => exact .inr rfl
      | some false, some false => exact .inr rfl
  case inr ha =>
    subst ha
    cases hb
    case inr hb => exact .inr <| hb ▸ rfl
    case inl hb =>
      subst hb
      match a, b' with
      | none,       _ => exact .inl rfl
      | some true,  _ => exact .inl rfl
      | some false, _ => exact .inr rfl

theorem not (ha : Informs a a') : Informs a.not a'.not := by
  cases ha
  case inl ha => exact .inl <| congrArg Kleene.not ha
  case inr ha => exact .inr <| congrArg Kleene.not ha

end Informs

-- The disjunction is the dual of the conjunction.
theorem or_eq_not_and : a.or b = (a.not.and b.not).not := by
  rcases a with _ | _ | _ <;> rcases b with _ | _ | _ <;> rfl

theorem Informs.or (ha : Informs a a') (hb : Informs b b') : Informs (a.or b) (a'.or b') := by
  rw [or_eq_not_and, or_eq_not_and]
  exact (ha.not.and hb.not).not

end Kleene
