import Traceline.Json

namespace Egress

-- What the egress code raises. `BudgetExceeded` is a subclass of `EgressDenied`; `raised` stands
-- for any other exception.
inductive Error
  | denied (reason : String)
  | budgetExceeded (message : String)
  | valueError (message : String)
  | raised
  deriving DecidableEq, Repr

-- The grouping of `f"{value:,}"`, on digits from the last to the first.
def commas : List Char → List Char
  | a :: b :: c :: d :: ds => a :: b :: c :: ',' :: commas (d :: ds)
  | ds                     => ds

def micros (value : Int) : String :=
  let digits := String.ofList (commas (toString value.natAbs).toList.reverse).reverse
  (if value < 0 then "-" else "") ++ digits ++ " micros"

example : micros 1234567 = "1,234,567 micros" := by decide

structure Budget where
  total    : Int
  spent    : Int
  reserved : Int
  deriving DecidableEq, Repr

namespace Budget

def new (budget_usd_micros : Int) : Except Error Budget :=
  if budget_usd_micros < 0 then
    .error <| .valueError "budget_usd_micros must be a nonnegative integer"
  else
    .ok { total := budget_usd_micros, spent := 0, reserved := 0 }

def reserve (b : Budget) (worst_case_usd_micros : Int) : Except Error (Int × Budget) :=
  if b.reserved < 0 then
    .error <| .budgetExceeded "budget unavailable: unmeterable traffic observed"
  else if worst_case_usd_micros > b.total - b.spent - b.reserved then
    .error <| .budgetExceeded <|
      "budget exceeded: " ++ micros worst_case_usd_micros ++ " needed, " ++
      micros (b.total - b.spent - b.reserved) ++ " remain"
  else
    .ok (worst_case_usd_micros, { b with reserved := b.reserved + worst_case_usd_micros })

def commit (b : Budget) (reservation observed_usd_micros : Int) : Budget where
  total    := b.total
  spent    := b.spent + observed_usd_micros
  reserved := max 0 (b.reserved - reservation)

def uncertain (b : Budget) (reservation : Option Int) : Budget :=
  let b := { b with reserved := -1 }
  match reservation with
  | none   => b
  | some r => { b with
      spent    := b.spent + r
      reserved := if b.reserved ≠ -1 then 0 else -1 }

variable {b : Budget} {w r o : Int}

theorem new_eq_ok_iff : new w = .ok b ↔ 0 ≤ w ∧ b = { total := w, spent := 0, reserved := 0 } := by
  by_cases hw : w < 0
  · have hn : ¬0 ≤ w := by omega
    simp [new, hw, hn]
  · simp [new, hw, eq_comm, Int.not_lt.mp hw]

-- The one way a reservation goes through.
theorem reserve_ok_iff {b' : Budget} :
    b.reserve w = .ok (r, b') ↔
      0 ≤ b.reserved ∧ w ≤ b.total - b.spent - b.reserved ∧ r = w ∧
      b' = { b with reserved := b.reserved + w } := by
  simp only [reserve]
  split
  case isTrue h => simp [Int.not_le.mpr h]
  case isFalse h =>
    split
    case isTrue h' => simp [Int.not_le.mpr h']
    case isFalse h' => simp_all [eq_comm]

theorem reserve_error_iff :
    (∃ e, b.reserve w = .error e) ↔ b.reserved < 0 ∨ b.total - b.spent - b.reserved < w := by
  simp only [reserve]
  split
  case isTrue h => simp [h]
  case isFalse h => split <;> simp_all

-- Every refusal is a `BudgetExceeded`.
theorem reserve_error (h : b.reserve w = .error e) : ∃ m, e = .budgetExceeded m := by
  simp only [reserve] at h
  split at h
  case isTrue => exact ⟨_, Except.error.inj h |>.symm⟩
  case isFalse =>
    split at h
    case isTrue => exact ⟨_, Except.error.inj h |>.symm⟩
    case isFalse => cases h

@[simp]
theorem commit_total : (b.commit r o).total = b.total := rfl

@[simp]
theorem commit_spent : (b.commit r o).spent = b.spent + o := rfl

theorem commit_reserved : (b.commit r o).reserved = max 0 (b.reserved - r) := rfl

@[simp]
theorem uncertain_total {r : Option Int} : (b.uncertain r).total = b.total := by
  cases r <;> rfl

@[simp]
theorem uncertain_spent {r : Option Int} : (b.uncertain r).spent = b.spent + r.getD 0 := by
  cases r <;> simp [uncertain]

@[simp]
theorem uncertain_reserved {r : Option Int} : (b.uncertain r).reserved = -1 := by
  cases r <;> simp [uncertain]

-- Whatever was encoded in `reserved`, a commit leaves an open budget.
theorem commit_reserved_nonneg : 0 ≤ (b.commit r o).reserved := by
  rw [commit_reserved]
  omega

theorem commit_reserved_eq_zero (h : b.reserved ≤ r) : (b.commit r o).reserved = 0 := by
  rw [commit_reserved]
  omega

end Budget

end Egress
