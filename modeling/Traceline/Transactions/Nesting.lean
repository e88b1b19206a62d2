import Traceline.Library.Savepoint

-- The blocks of one `Storage` and the statements they make of its connection.
namespace Transactions

open Savepoint (Connection)

variable {ω : Type}

-- What a transaction works on: the writes so far, and the setting that lasts as long as it does.
structure Rows (ω : Type) where
  writes           : List ω
  app_workspace_id : Option String

def Rows.settle (rows : Rows ω) : Rows ω :=
  { rows with app_workspace_id := none }

-- No statement reads the last four fields: how many blocks have begun, the ones that are open, from
-- the innermost on, the writes with the blocks around them, and the blocks that ended normally.
structure Storage (ω : Type) where
  is_postgres     : Bool
  conn            : Connection (Rows ω)
  tx_depth        : ℕ
  scope_workspace : Option String
  blocks          : ℕ
  around          : List ℕ
  made            : List (ω × List ℕ)
  ended           : List ℕ

-- How something ended, and what it left behind.
abbrev Ran (ω : Type) := Except String Unit × Storage ω

def Ran.next (r : Ran ω) (f : Storage ω → Ran ω) : Ran ω :=
  match r.1 with
  | .ok _    => f r.2
  | .error e => (.error e, r.2)

namespace Storage

def execute (statement : Connection (Rows ω) → Except String (Connection (Rows ω)))
    (s : Storage ω) : Ran ω :=
  match statement s.conn with
  | .ok conn => (.ok (), { s with conn })
  | .error e => (.error e, s)

-- A statement that the database may refuse.
def refusable (refused : Option String)
    (statement : Connection (Rows ω) → Except String (Connection (Rows ω)))
    (conn : Connection (Rows ω)) : Except String (Connection (Rows ω)) :=
  match refused with
  | none   => statement conn
  | some e => .error e

-- BEGIN, and the COMMIT or RELEASE at the end of a block, where the database refuses them.
structure Refusals where
  begins : Option String := none
  ends   : Option String := none

def savepoint (depth : ℕ) : String :=
  "storage_nested_" ++ toString depth

def started (s : Storage ω) : Storage ω :=
  { s with
    tx_depth := s.tx_depth + 1
    blocks   := s.blocks + 1
    around   := s.blocks :: s.around }

-- The `finally` of `_tx`.
def finished (s : Storage ω) : Storage ω :=
  { s with
    tx_depth := s.tx_depth - 1
    around   := s.around.tail }

-- The `except` of `_tx`.
def undo (depth : ℕ) (e : String) (s : Storage ω) : Ran ω :=
  if depth = 0 then (.error e, { s with conn := s.conn.rollback })
  else
    ((s.execute (·.rollback_to (savepoint depth))).next
      (execute (·.release (savepoint depth)))).next fun s => (.error e, s)

def _tx (refusals : Refusals) (body : Storage ω → Ran ω) (s : Storage ω) : Ran ω :=
  let depth := s.tx_depth
  let begins := s.execute <|
    if depth = 0 then refusable refusals.begins (·.start) else (·.savepoint (savepoint depth))
  begins.next fun t =>
    let ran := (body t.started).next <| execute <| refusable refusals.ends <|
      if depth = 0 then (·.commit Rows.settle) else (·.release (savepoint depth))
    let r : Ran ω := match ran.1 with
      | .ok _    => (.ok (), { ran.2 with ended := ran.2.ended ++ [s.blocks] })
      | .error e => undo depth e ran.2
    (r.1, r.2.finished)

-- SELECT set_config('app.workspace_id', ?, true)
def set_config (workspace_id : String) (s : Storage ω) : Storage ω :=
  { s with conn :=
    s.conn.with_work { s.conn.work with app_workspace_id := some workspace_id } }

def workspace_transaction (workspace_id : String) (refusals : Refusals)
    (body : Storage ω → Ran ω) (s : Storage ω) : Ran ω :=
  if workspace_id = "" then (.error "workspace identity is required", s)
  else
    let previous := s.scope_workspace
    if previous ≠ none ∧ previous ≠ some workspace_id then
      (.error "cannot switch workspace inside a transaction", s)
    else
      let configured (t : Storage ω) : Ran ω :=
        body <| if t.is_postgres ∧ previous = none then t.set_config workspace_id else t
      let r := _tx refusals configured { s with scope_workspace := some workspace_id }
      (r.1, { r.2 with scope_workspace := previous })

-- A write that is in no transaction commits on PostgreSQL. On SQLite the driver begins one, which
-- nothing ends.
def write (w : ω) (s : Storage ω) : Ran ω :=
  let conn := if s.is_postgres then s.conn else s.conn.opened
  (.ok (), { s with
    conn := conn.with_work { conn.work with writes := conn.work.writes ++ [w] }
    made := s.made ++ [(w, s.around)] })

end Storage

-- What is done in a block or around the outermost ones. The handler of `attempt` catches whatever
-- its body raises. A repository call that `_workspace_scoped` wraps is a `workspace` block.
inductive Body (ω : Type)
  | done
  | write (w : ω) (rest : Body ω)
  | raise (e : String)
  | attempt (body handler rest : Body ω)
  | tx (refusals : Storage.Refusals) (body rest : Body ω)
  | workspace (workspace_id : String) (refusals : Storage.Refusals) (body rest : Body ω)

namespace Body

-- Every write is made in a block.
def guarded : Body ω → Bool
  | .done                      => true
  | .write _ _                 => false
  | .raise _                   => true
  | .attempt body handler rest => body.guarded && handler.guarded && rest.guarded
  | .tx _ _ rest               => rest.guarded
  | .workspace _ _ _ rest      => rest.guarded

def run : Body ω → Storage ω → Ran ω
  | .done,                                  s => (.ok (), s)
  | .write w rest,                          s => (s.write w).next rest.run
  | .raise e,                               s => (.error e, s)
  | .attempt body handler rest,             s =>
    let r := body.run s
    let caught : Ran ω := match r.1 with
      | .ok _    => r
      | .error _ => handler.run r.2
    caught.next rest.run
  | .tx refusals body rest,                 s => (s._tx refusals body.run).next rest.run
  | .workspace workspace_id refusals body rest, s =>
    (s.workspace_transaction workspace_id refusals body.run).next rest.run

end Body

end Transactions
