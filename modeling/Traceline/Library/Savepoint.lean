import Mathlib.Data.List.Basic

-- A database connection with transactions and the savepoints in them, for any state of the data.
namespace Savepoint

-- A transaction that is open: the data as it has them, and the savepoints from the newest on, each
-- with the data as they were.
structure Tx (σ : Type*) where
  work       : σ
  savepoints : List (String × σ)

structure Connection (σ : Type*) where
  committed : σ
  tx        : Option (Tx σ)

namespace Connection

variable {σ : Type*} (conn : Connection σ) (name : String)

-- The data that a statement sees.
def work : σ :=
  match conn.tx with
  | none    => conn.committed
  | some tx => tx.work

def with_work (work : σ) : Connection σ :=
  match conn.tx with
  | none    => { conn with committed := work }
  | some tx => { conn with tx := some { tx with work } }

-- BEGIN
def start : Except String (Connection σ) :=
  match conn.tx with
  | none   => .ok { conn with tx := some ⟨conn.committed, []⟩ }
  | some _ => .error "cannot start a transaction within a transaction"

-- What a driver begins by itself where no transaction is open.
def opened : Connection σ :=
  match conn.tx with
  | none   => { conn with tx := some ⟨conn.committed, []⟩ }
  | some _ => conn

-- COMMIT: `settle` is what outlives the transaction.
def commit (settle : σ → σ) : Except String (Connection σ) :=
  match conn.tx with
  | none    => .error "cannot commit - no transaction is active"
  | some tx => .ok { committed := settle tx.work, tx := none }

def rollback : Connection σ :=
  { conn with tx := none }

def savepoint : Except String (Connection σ) :=
  match conn.tx with
  | none    => .error "no transaction is active"
  | some tx => .ok { conn with tx := some { tx with savepoints := (name, tx.work) :: tx.savepoints } }

-- RELEASE SAVEPOINT forgets the newest savepoint of the name and those after it.
def release : Except String (Connection σ) :=
  match conn.tx with
  | none    => .error s!"no such savepoint: {name}"
  | some tx =>
    match tx.savepoints.dropWhile (·.1 ≠ name) with
    | []              => .error s!"no such savepoint: {name}"
    | _ :: savepoints => .ok { conn with tx := some { tx with savepoints } }

-- ROLLBACK TO SAVEPOINT, which the savepoint itself survives.
def rollback_to : Except String (Connection σ) :=
  match conn.tx with
  | none    => .error s!"no such savepoint: {name}"
  | some tx =>
    match tx.savepoints.dropWhile (·.1 ≠ name) with
    | []                      => .error s!"no such savepoint: {name}"
    | (name, work) :: earlier =>
      .ok { conn with tx := some ⟨work, (name, work) :: earlier⟩ }

variable {conn name} {tx : Tx σ} {rows : σ} {settle : σ → σ}

@[simp]
theorem work_with_work : (conn.with_work rows).work = rows := by
  cases h : conn.tx <;> simp [with_work, work, h]

@[simp]
theorem with_work_with_work {rows' : σ} :
    (conn.with_work rows).with_work rows' = conn.with_work rows' := by
  cases h : conn.tx <;> simp [with_work, h]

@[simp]
theorem with_work_work : conn.with_work conn.work = conn := by
  obtain ⟨committed, tx⟩ := conn
  cases tx <;> rfl

@[simp]
theorem tx_with_work_eq_none_iff : (conn.with_work rows).tx = none ↔ conn.tx = none := by
  cases h : conn.tx <;> simp [with_work, h]

-- A transaction that is begun sees what is committed. When it is committed its data are, and when
-- it is rolled back nothing has happened.
theorem start_eq_ok {conn' : Connection σ} (h : conn.start = .ok conn') :
    conn.tx = none ∧ conn'.work = conn.work ∧ conn'.tx ≠ none ∧
      (∀ rows, (conn'.with_work rows).commit settle = .ok (conn.with_work (settle rows))) ∧
      ∀ rows, (conn'.with_work rows).rollback = conn := by
  obtain ⟨committed, tx⟩ := conn
  cases tx with
  | some tx => cases h
  | none    =>
    cases h
    exact ⟨rfl, rfl, by simp, fun _ => rfl, fun _ => rfl⟩

-- A savepoint likewise: released it leaves the data, rolled back to it leaves them as they were.
theorem savepoint_eq_ok {conn' : Connection σ} (h : conn.savepoint name = .ok conn') :
    conn'.work = conn.work ∧ conn'.tx ≠ none ∧
      (∀ rows, (conn'.with_work rows).release name = .ok (conn.with_work rows)) ∧
      ∀ rows, ∃ back, (conn'.with_work rows).rollback_to name = .ok back ∧
        back.release name = .ok conn := by
  obtain ⟨committed, tx⟩ := conn
  cases tx with
  | none    => cases h
  | some tx =>
    cases h
    refine ⟨rfl, by simp, fun rows => ?_, fun rows => ?_⟩
    · simp [release, with_work]
    · exact ⟨⟨committed, some ⟨tx.work, (name, tx.work) :: tx.savepoints⟩⟩,
        by simp [rollback_to, with_work], by simp [release]⟩

theorem opened_of_tx (h : conn.tx ≠ none) : conn.opened = conn := by
  cases htx : conn.tx with
  | none    => exact absurd htx h
  | some tx => rw [opened, htx]

end Connection

end Savepoint
