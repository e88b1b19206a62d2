import Traceline.Transactions.Nesting

namespace Transactions

open Savepoint (Connection)

variable {ω : Type} {s s' s'' t : Storage ω} {log log' : List (ω × List ℕ)} {closed closed' : List ℕ}
variable {r : Ran ω} {f g : Storage ω → Ran ω} {refusals : Storage.Refusals} {b : Body ω}

section Frames

-- What no part of a program changes: how deep it is, and which blocks and which scope are around it.
structure Frame (s s' : Storage ω) : Prop where
  depth  : s'.tx_depth = s.tx_depth
  scope  : s'.scope_workspace = s.scope_workspace
  around : s'.around = s.around

namespace Frame

theorem refl : Frame s s :=
  ⟨rfl, rfl, rfl⟩

theorem trans (h : Frame s s') (h' : Frame s' s'') : Frame s s'' :=
  ⟨h'.depth.trans h.depth, h'.scope.trans h.scope, h'.around.trans h.around⟩

theorem next (h : Frame s r.2) (hf : Frame r.2 (f r.2).2) : Frame s (r.next f).2 := by
  rw [Ran.next]
  split
  · exact h.trans hf
  · exact h

theorem execute {statement : Connection (Rows ω) → Except String (Connection (Rows ω))} :
    Frame s (s.execute statement).2 := by
  rw [Storage.execute]
  split <;> exact ⟨rfl, rfl, rfl⟩

theorem undo {depth : ℕ} {e : String} : Frame s (s.undo depth e).2 := by
  rw [Storage.undo]
  split
  · exact ⟨rfl, rfl, rfl⟩
  · exact (execute.next execute).next refl

theorem _tx (hf : ∀ t, Frame t (f t).2) : Frame s (s._tx refusals f).2 := by
  rw [Storage._tx]
  refine execute.next ?_
  generalize (s.execute _).2 = t
  have hran : ∀ statement, Frame t.started ((f t.started).next <| Storage.execute statement).2 :=
    fun _ => (hf _).next execute
  dsimp only
  generalize hr : (f t.started).next _ = ran
  have hran := hr ▸ hran _
  have hfinished : ∀ u, Frame t.started u → Frame t u.finished := fun u hu =>
    ⟨by rw [Storage.finished]; dsimp only; rw [hu.depth]; rfl, hu.scope,
      by rw [Storage.finished]; dsimp only; rw [hu.around]; rfl⟩
  refine hfinished _ ?_
  cases ran.1 with
  | ok _    => exact ⟨hran.depth, hran.scope, hran.around⟩
  | error e => exact hran.trans undo

theorem workspace_transaction {workspace_id : String} (hf : ∀ t, Frame t (f t).2) :
    Frame s (s.workspace_transaction workspace_id refusals f).2 := by
  rw [Storage.workspace_transaction]
  split
  case isTrue  => exact refl
  case isFalse =>
    dsimp only
    split
    case isTrue  => exact refl
    case isFalse =>
      have hconfigured : ∀ t : Storage ω, Frame t (f <| if t.is_postgres = true ∧
          s.scope_workspace = none then t.set_config workspace_id else t).2 := by
        intro t
        split
        · exact (⟨rfl, rfl, rfl⟩ : Frame t (t.set_config workspace_id)).trans <| hf _
        · exact hf t
      have htx := @_tx ω { s with scope_workspace := some workspace_id } _ refusals hconfigured
      exact ⟨htx.depth, rfl, htx.around⟩

end Frame

theorem frame_run (b : Body ω) (s : Storage ω) : Frame s (b.run s).2 := by
  induction b generalizing s with
  | done                                  => exact .refl
  | write w rest ih                       =>
    exact (⟨rfl, rfl, rfl⟩ : Frame s (s.write w).2).trans <| ih _
  | raise e                               => exact .refl
  | attempt body handler rest ihb ihh ihr =>
    rw [Body.run]
    refine Frame.next ?_ (ihr _)
    split
    · exact ihb s
    · exact (ihb s).trans <| ihh _
  | tx refusals body rest ihb ihr         => exact (Frame._tx ihb).next <| ihr _
  | workspace id refusals body rest ihb ihr =>
    exact (Frame.workspace_transaction ihb).next <| ihr _

end Frames

section Writes

-- The writes of a log that last where the blocks of `closed` end normally and those of `around` are
-- still to end.
def lasting (around closed : List ℕ) (log : List (ω × List ℕ)) : List ω :=
  (log.filter fun e => e.2.all fun b => b ∈ around ∨ b ∈ closed).map Prod.fst

-- What a part of a program did: the log of its writes, the blocks of its own that ended normally,
-- and what the connection has of it.
structure Worked (s s' : Storage ω) (log : List (ω × List ℕ)) (closed : List ℕ) : Prop where
  made   : s'.made = s.made ++ log
  ended  : s'.ended = s.ended ++ closed
  blocks : s.blocks ≤ s'.blocks
  paths  : ∀ e ∈ log, ∃ own, e.2 = own ++ s.around ∧ ∀ b ∈ own, s.blocks ≤ b ∧ b < s'.blocks
  fresh  : ∀ b ∈ closed, s.blocks ≤ b ∧ b < s'.blocks
  conn   : ∃ rows, s'.conn = s.conn.with_work rows ∧
    rows.writes = s.conn.work.writes ++ lasting s.around closed log

-- A transaction is open exactly within blocks, and the blocks that are open have begun.
structure Sane (s : Storage ω) : Prop where
  conn   : s.conn.tx = none ↔ s.tx_depth = 0
  around : ∀ b ∈ s.around, b < s.blocks

theorem lasting_append {around : List ℕ} : lasting around closed (log ++ log') =
    lasting around closed log ++ lasting around closed log' := by
  rw [lasting, List.filter_append, List.map_append, lasting, lasting]

theorem lasting_congr {around around' : List ℕ} (h : ∀ e ∈ log, ∀ b ∈ e.2,
    (b ∈ around ∨ b ∈ closed) ↔ (b ∈ around' ∨ b ∈ closed')) :
    lasting around closed log = lasting around' closed' log := by
  rw [lasting, lasting]
  refine congrArg _ <| List.filter_congr fun e he => ?_
  refine Bool.eq_iff_iff.mpr ?_
  simp only [List.all_eq_true, decide_eq_true_eq]
  exact forall₂_congr fun b hb => h e he b hb

namespace Worked

theorem refl : Worked s s [] [] where
  made   := (List.append_nil _).symm
  ended  := (List.append_nil _).symm
  blocks := Nat.le_refl _
  paths  := List.forall_mem_nil _
  fresh  := List.forall_mem_nil _
  conn   := ⟨s.conn.work, Connection.with_work_work.symm, (List.append_nil _).symm⟩

theorem sane (h : Worked s s' log closed) (hframe : Frame s s') (hs : Sane s) : Sane s' where
  conn   := by
    obtain ⟨rows, hconn, -⟩ := h.conn
    rw [hconn, Connection.tx_with_work_eq_none_iff, hframe.depth]
    exact hs.conn
  around := by
    rw [hframe.around]
    exact fun b hb => Nat.lt_of_lt_of_le (hs.around b hb) h.blocks

theorem trans (h : Worked s s' log closed) (hframe : Frame s s') (hs : Sane s)
    (h' : Worked s' s'' log' closed') : Worked s s'' (log ++ log') (closed ++ closed') where
  made   := by rw [h'.made, h.made, List.append_assoc]
  ended  := by rw [h'.ended, h.ended, List.append_assoc]
  blocks := Nat.le_trans h.blocks h'.blocks
  paths  := by
    intro e he
    rcases List.mem_append.mp he with he | he
    · obtain ⟨own, hpath, hown⟩ := h.paths e he
      exact ⟨own, hpath, fun b hb => ⟨(hown b hb).left, Nat.lt_of_lt_of_le (hown b hb).right h'.blocks⟩⟩
    · obtain ⟨own, hpath, hown⟩ := h'.paths e he
      rw [hframe.around] at hpath
      exact ⟨own, hpath, fun b hb => ⟨Nat.le_trans h.blocks (hown b hb).left, (hown b hb).right⟩⟩
  fresh  := by
    intro b hb
    rcases List.mem_append.mp hb with hb | hb
    · exact ⟨(h.fresh b hb).left, Nat.lt_of_lt_of_le (h.fresh b hb).right h'.blocks⟩
    · exact ⟨Nat.le_trans h.blocks (h'.fresh b hb).left, (h'.fresh b hb).right⟩
  conn   := by
    obtain ⟨rows, hconn, hwrites⟩ := h.conn
    obtain ⟨rows', hconn', hwrites'⟩ := h'.conn
    refine ⟨rows', by rw [hconn', hconn, Connection.with_work_with_work], ?_⟩
    rw [hwrites', hconn, Connection.work_with_work, hwrites, hframe.around, lasting_append,
      List.append_assoc]
    congr 2
    -- Blocks that end later are none of those around an earlier write, and the other way round.
    · refine lasting_congr fun e he b hb => or_congr_right ?_
      rw [List.mem_append]
      refine (or_iff_left_of_imp fun hb' => ?_).symm
      obtain ⟨own, hpath, hown⟩ := h.paths e he
      rw [hpath] at hb
      have hfresh := (h'.fresh b hb').left
      rcases List.mem_append.mp hb with hb | hb
      · exact absurd (hown b hb).right (by omega)
      · exact absurd (hs.around b hb) (by have := h.blocks; omega)
    · refine lasting_congr fun e he b hb => ?_
      rw [List.mem_append]
      refine ⟨Or.imp_right .inr, fun hb' => ?_⟩
      rcases hb' with hb' | hb' | hb'
      · exact .inl hb'
      · obtain ⟨own, hpath, hown⟩ := h'.paths e he
        rw [hpath, hframe.around] at hb
        rcases List.mem_append.mp hb with hb | hb
        · exact absurd (hown b hb).left (by have := (h.fresh b hb').right; omega)
        · exact .inl hb
      · exact .inr hb'

section Block

variable {conn conn' : Connection (Rows ω)} {rows : Rows ω} {u : Storage ω}

-- The statement that a block begins with, and the one that it ends with.
def begins (refusals : Storage.Refusals) (depth : ℕ) :
    Connection (Rows ω) → Except String (Connection (Rows ω)) :=
  if depth = 0 then Storage.refusable refusals.begins (·.start)
  else (·.savepoint (Storage.savepoint depth))

def ends (refusals : Storage.Refusals) (depth : ℕ) :
    Connection (Rows ω) → Except String (Connection (Rows ω)) :=
  Storage.refusable refusals.ends <|
    if depth = 0 then (·.commit Rows.settle) else (·.release (Storage.savepoint depth))

theorem refusable_eq_ok {refused : Option String}
    {statement : Connection (Rows ω) → Except String (Connection (Rows ω))}
    (h : Storage.refusable refused statement conn = .ok conn') : statement conn = .ok conn' := by
  cases refused with
  | none   => exact h
  | some e => cases h

-- Whether it is a transaction or a savepoint: ended it leaves the rows, undone it leaves them as
-- they were.
structure Begun (refusals : Storage.Refusals) (s : Storage ω) (conn : Connection (Rows ω)) :
    Prop where
  work : conn.work = s.conn.work
  tx   : conn.tx ≠ none
  ends : ∀ rows conn', ends refusals s.tx_depth (conn.with_work rows) = .ok conn' →
    ∃ rows', conn' = s.conn.with_work rows' ∧ rows'.writes = rows.writes
  undo : ∀ u rows e, u.conn = conn.with_work rows →
    Storage.undo s.tx_depth e u = (.error e, { u with conn := s.conn })

theorem begun (h : begins refusals s.tx_depth s.conn = .ok conn) : Begun refusals s conn := by
  by_cases hdepth : s.tx_depth = 0
  case pos =>
    rw [begins, if_pos hdepth] at h
    obtain ⟨-, hwork, htx, hcommit, hrollback⟩ :=
      @Connection.start_eq_ok _ _ Rows.settle _ <| refusable_eq_ok h
    refine ⟨hwork, htx, fun rows conn' hends => ?_, fun u rows e hu => ?_⟩
    · rw [ends, if_pos hdepth] at hends
      have hends := refusable_eq_ok hends
      rw [hcommit] at hends
      exact ⟨rows.settle, (Except.ok.inj hends).symm, rfl⟩
    · rw [Storage.undo, if_pos hdepth, hu, hrollback]
  case neg =>
    rw [begins, if_neg hdepth] at h
    obtain ⟨hwork, htx, hrelease, hrollback⟩ := Connection.savepoint_eq_ok h
    refine ⟨hwork, htx, fun rows conn' hends => ?_, fun u rows e hu => ?_⟩
    · rw [ends, if_neg hdepth] at hends
      have hends := refusable_eq_ok hends
      rw [hrelease] at hends
      exact ⟨rows, (Except.ok.inj hends).symm, rfl⟩
    · obtain ⟨back, hback, hreleased⟩ := hrollback rows
      rw [Storage.undo, if_neg hdepth, Storage.execute, hu, hback]
      dsimp only [Ran.next]
      rw [Storage.execute]
      dsimp only
      rw [hreleased]

theorem sane_started (hs : Sane s) (htx : conn.tx ≠ none) :
    Sane ({ s with conn } : Storage ω).started where
  conn   := iff_of_false htx <| Nat.succ_ne_zero _
  around := by
    intro b hb
    rcases List.mem_cons.mp hb with rfl | hb
    · exact Nat.lt_succ_self _
    · exact Nat.lt_succ_of_lt <| hs.around b hb

variable (hbody : Worked ({ s with conn } : Storage ω).started u log closed)

include hbody

theorem own_paths : ∀ e ∈ log, ∃ own, e.2 = own ++ s.around ∧ s.blocks ∈ own ∧
    ∀ b ∈ own, s.blocks ≤ b ∧ b < u.blocks := by
  intro e he
  obtain ⟨own, hpath, hown⟩ := hbody.paths e he
  have hblocks : s.blocks + 1 ≤ u.blocks := hbody.blocks
  refine ⟨own ++ [s.blocks], ?_, List.mem_append_right _ <| .head _, fun b hb => ?_⟩
  · rw [hpath, List.append_assoc]
    rfl
  · rcases List.mem_append.mp hb with hb | hb
    · exact ⟨Nat.le_of_succ_le (hown b hb).left, (hown b hb).right⟩
    · rw [List.mem_singleton.mp hb]
      exact ⟨Nat.le_refl _, hblocks⟩

-- A block that ends normally hands its writes to what is around it.
theorem kept (hb : Begun refusals s conn)
    (hends : ends refusals s.tx_depth u.conn = .ok conn') :
    Worked s ({ u with conn := conn', ended := u.ended ++ [s.blocks] } : Storage ω).finished log
      (closed ++ [s.blocks]) where
  made   := hbody.made
  ended  := by
    have h := congrArg (· ++ [s.blocks]) hbody.ended
    exact h.trans <| List.append_assoc ..
  blocks := Nat.le_of_succ_le hbody.blocks
  paths  := fun e he => by
    obtain ⟨own, hpath, -, hown⟩ := own_paths hbody e he
    exact ⟨own, hpath, hown⟩
  fresh  := by
    intro b hb'
    have hblocks : s.blocks + 1 ≤ u.blocks := hbody.blocks
    rcases List.mem_append.mp hb' with hb' | hb'
    · exact ⟨Nat.le_of_succ_le (hbody.fresh b hb').left, (hbody.fresh b hb').right⟩
    · rw [List.mem_singleton.mp hb']
      exact ⟨Nat.le_refl _, hblocks⟩
  conn   := by
    obtain ⟨rows, hconn, hwrites⟩ := hbody.conn
    have hconn : u.conn = conn.with_work rows := hconn
    have hwrites : rows.writes = conn.work.writes ++ lasting (s.blocks :: s.around) closed log :=
      hwrites
    rw [hconn] at hends
    obtain ⟨rows', hconn', hrows'⟩ := hb.ends rows conn' hends
    refine ⟨rows', hconn', ?_⟩
    rw [hrows', hwrites, hb.work]
    refine congrArg _ <| lasting_congr fun _ _ b _ => ?_
    rw [List.mem_append, List.mem_cons, List.mem_singleton]
    tauto

-- A block that raises takes its writes with it.
theorem undone (hs : Sane s) :
    Worked s ({ u with conn := s.conn } : Storage ω).finished log closed where
  made   := hbody.made
  ended  := hbody.ended
  blocks := Nat.le_of_succ_le hbody.blocks
  paths  := fun e he => by
    obtain ⟨own, hpath, -, hown⟩ := own_paths hbody e he
    exact ⟨own, hpath, hown⟩
  fresh  := fun b hb =>
    ⟨Nat.le_of_succ_le (hbody.fresh b hb).left, (hbody.fresh b hb).right⟩
  conn   := by
    refine ⟨s.conn.work, Connection.with_work_work.symm, ?_⟩
    have hnone : lasting s.around closed log = [] := by
      rw [lasting, List.map_eq_nil_iff, List.filter_eq_nil_iff]
      intro e he hall
      obtain ⟨own, hpath, hown, -⟩ := own_paths hbody e he
      have hblock := List.all_eq_true.mp hall s.blocks (hpath ▸ List.mem_append_left _ hown)
      rcases of_decide_eq_true hblock with hblock | hblock
      · exact Nat.lt_irrefl _ <| hs.around _ hblock
      · exact Nat.lt_irrefl _ (hbody.fresh _ hblock).left
    rw [hnone, List.append_nil]

end Block

theorem _tx (hs : Sane s)
    (hf : ∀ t, Sane t → 0 < t.tx_depth → ∃ log closed, Worked t (f t).2 log closed) :
    ∃ log closed, Worked s (s._tx refusals f).2 log closed := by
  have htx : s._tx refusals f = (s.execute (begins refusals s.tx_depth)).next fun t =>
      let ran := (f t.started).next <| Storage.execute <| ends refusals s.tx_depth
      let r : Ran ω := match ran.1 with
        | .ok _    => (.ok (), { ran.2 with ended := ran.2.ended ++ [s.blocks] })
        | .error e => Storage.undo s.tx_depth e ran.2
      (r.1, r.2.finished) := rfl
  rw [htx, Storage.execute]
  cases hbegins : begins refusals s.tx_depth s.conn with
  | error e => exact ⟨[], [], refl⟩
  | ok conn =>
    have hb := begun hbegins
    obtain ⟨log, closed, hbody⟩ := hf _ (sane_started hs hb.tx) (Nat.succ_pos _)
    obtain ⟨rows, hconn, -⟩ := hbody.conn
    dsimp only [Ran.next]
    generalize f ({ s with conn } : Storage ω).started = ran at hbody hconn
    obtain ⟨result, u⟩ := ran
    have hundo : ∀ e, Storage.undo s.tx_depth e u = (.error e, { u with conn := s.conn }) :=
      fun e => hb.undo u rows e hconn
    cases result with
    | error e =>
      dsimp only
      rw [hundo]
      exact ⟨log, closed, undone hbody hs⟩
    | ok _    =>
      dsimp only
      rw [Storage.execute]
      cases hends : ends refusals s.tx_depth u.conn with
      | error e  =>
        dsimp only
        rw [hundo]
        exact ⟨log, closed, undone hbody hs⟩
      | ok conn' =>
        dsimp only
        exact ⟨log, closed ++ [s.blocks], kept hbody hb hends⟩

-- What is not the data or the log of the writes may change on the way in and out.
theorem within {t t' : Storage ω} (h : Worked t t' log closed) (hmade : t.made = s.made)
    (hended : t.ended = s.ended) (hblocks : t.blocks = s.blocks) (haround : t.around = s.around)
    (hconn : ∀ rows, t.conn.with_work rows = s.conn.with_work rows)
    (hwrites : t.conn.work.writes = s.conn.work.writes) (scope : Option String) :
    Worked s { t' with scope_workspace := scope } log closed where
  made   := hmade ▸ h.made
  ended  := hended ▸ h.ended
  blocks := hblocks ▸ h.blocks
  paths  := hblocks ▸ haround ▸ h.paths
  fresh  := hblocks ▸ h.fresh
  conn   := by
    obtain ⟨rows, hrows, hlasting⟩ := h.conn
    exact ⟨rows, hrows.trans <| hconn rows, by rw [hlasting, hwrites, haround]⟩

theorem set_config {workspace_id : String} (hs : Sane s) (hdepth : 0 < s.tx_depth)
    (hf : ∀ t, Sane t → 0 < t.tx_depth → ∃ log closed, Worked t (f t).2 log closed) :
    ∃ log closed, Worked s (f <| s.set_config workspace_id).2 log closed := by
  have hsane : Sane (s.set_config workspace_id) :=
    ⟨Connection.tx_with_work_eq_none_iff.trans hs.conn, hs.around⟩
  obtain ⟨log, closed, h⟩ := hf _ hsane hdepth
  exact ⟨log, closed, h.within (s := s) rfl rfl rfl rfl (fun _ => Connection.with_work_with_work)
    (by rw [Storage.set_config, Connection.work_with_work]) _⟩

theorem workspace_transaction {workspace_id : String} (hs : Sane s)
    (hf : ∀ t, Sane t → 0 < t.tx_depth → ∃ log closed, Worked t (f t).2 log closed) :
    ∃ log closed,
      Worked s (s.workspace_transaction workspace_id refusals f).2 log closed := by
  rw [Storage.workspace_transaction]
  split
  case isTrue  => exact ⟨[], [], refl⟩
  case isFalse =>
    dsimp only
    split
    case isTrue  => exact ⟨[], [], refl⟩
    case isFalse =>
      have hscoped : Sane { s with scope_workspace := some workspace_id } := ⟨hs.conn, hs.around⟩
      let configured (t : Storage ω) : Ran ω :=
        f <| if t.is_postgres = true ∧ s.scope_workspace = none then t.set_config workspace_id else t
      obtain ⟨log, closed, h⟩ := @_tx ω _ configured refusals hscoped fun t ht hdepth => by
        dsimp only [configured]
        split
        · exact set_config ht hdepth hf
        · exact hf t ht hdepth
      exact ⟨log, closed, h.within (s := s) rfl rfl rfl rfl (fun _ => rfl) rfl _⟩

theorem write {w : ω} (hs : Sane s) (hdepth : 0 < s.tx_depth) :
    Worked s (s.write w).2 [(w, s.around)] [] where
  made   := rfl
  ended  := (List.append_nil _).symm
  blocks := Nat.le_refl _
  paths  := by
    intro e he
    rw [List.mem_singleton.mp he]
    exact ⟨[], rfl, List.forall_mem_nil _⟩
  fresh  := List.forall_mem_nil _
  conn   := by
    have htx : s.conn.tx ≠ none := fun h => Nat.ne_of_gt hdepth <| hs.conn.mp h
    have hconn : (if s.is_postgres then s.conn else s.conn.opened) = s.conn := by
      rw [Connection.opened_of_tx htx, ite_self]
    have hlasting : lasting s.around [] [(w, s.around)] = [w] := by
      rw [lasting, List.filter_cons_of_pos, List.filter_nil]
      · rfl
      · exact List.all_eq_true.mpr fun b hb => decide_eq_true <| .inl hb
    refine ⟨{ s.conn.work with writes := s.conn.work.writes ++ [w] }, ?_, by rw [hlasting]⟩
    rw [Storage.write, hconn]

-- Two parts of a program one after the other, where the first may raise.
theorem next (hs : Sane s) (hframe : Frame s r.2) (h : ∃ log closed, Worked s r.2 log closed)
    (hf : Sane r.2 → ∃ log closed, Worked r.2 (f r.2).2 log closed) :
    ∃ log closed, Worked s (r.next f).2 log closed := by
  obtain ⟨log, closed, h⟩ := h
  rw [Ran.next]
  split
  · obtain ⟨log', closed', h'⟩ := hf <| h.sane hframe hs
    exact ⟨log ++ log', closed ++ closed', h.trans hframe hs h'⟩
  · exact ⟨log, closed, h⟩

end Worked

theorem worked_run (b : Body ω) (s : Storage ω) (hs : Sane s)
    (h : s.tx_depth = 0 → b.guarded = true) : ∃ log closed, Worked s (b.run s).2 log closed := by
  -- Within a block writes are allowed everywhere.
  induction b generalizing s with
  | done                                    => exact ⟨[], [], .refl⟩
  | write w rest ih                         =>
    have hdepth : 0 < s.tx_depth := Nat.pos_of_ne_zero fun hdepth => Bool.noConfusion <| h hdepth
    exact Worked.next hs ⟨rfl, rfl, rfl⟩ ⟨_, _, .write hs hdepth⟩
      fun hs' => ih _ hs' fun hdepth' => absurd hdepth' <| Nat.ne_of_gt hdepth
  | raise e                                 => exact ⟨[], [], .refl⟩
  | attempt body handler rest ihb ihh ihr   =>
    have hguarded : s.tx_depth = 0 →
        body.guarded = true ∧ handler.guarded = true ∧ rest.guarded = true := fun hdepth => by
      have := h hdepth
      rw [Body.guarded, Bool.and_eq_true, Bool.and_eq_true] at this
      exact ⟨this.left.left, this.left.right, this.right⟩
    rw [Body.run]
    obtain ⟨log, closed, hbody⟩ := ihb s hs fun hdepth => (hguarded hdepth).left
    have hframe := frame_run body s
    have hsane := hbody.sane hframe hs
    generalize body.run s = r at hbody hframe hsane
    obtain ⟨result, t⟩ := r
    cases result with
    | ok _    =>
      exact Worked.next hs hframe ⟨log, closed, hbody⟩ fun hs' =>
        ihr _ hs' fun hdepth => (hguarded <| hframe.depth.symm.trans hdepth).right.right
    | error e =>
      obtain ⟨log', closed', hhandler⟩ := ihh t hsane fun hdepth =>
        (hguarded <| hframe.depth.symm.trans hdepth).right.left
      have hframe' := hframe.trans <| frame_run handler t
      exact Worked.next hs hframe' ⟨_, _, hbody.trans hframe hs hhandler⟩ fun hs' =>
        ihr _ hs' fun hdepth => (hguarded <| hframe'.depth.symm.trans hdepth).right.right
  | tx refusals body rest ihb ihr           =>
    have hframe := @Frame._tx ω s _ refusals <| frame_run body
    refine Worked.next hs hframe (Worked._tx hs fun t ht hdepth => ?_) fun hs' => ?_
    · exact ihb t ht fun hdepth' => absurd hdepth' <| Nat.ne_of_gt hdepth
    · exact ihr _ hs' fun hdepth => h <| hframe.depth.symm.trans hdepth
  | workspace id refusals body rest ihb ihr =>
    have hframe := @Frame.workspace_transaction ω s _ refusals id <| frame_run body
    refine Worked.next hs hframe (Worked.workspace_transaction hs fun t ht hdepth => ?_) fun hs' => ?_
    · exact ihb t ht fun hdepth' => absurd hdepth' <| Nat.ne_of_gt hdepth
    · exact ihr _ hs' fun hdepth => h <| hframe.depth.symm.trans hdepth

end Writes

-- No block is open, and none has been in the record that is kept.
structure Idle (s : Storage ω) : Prop where
  conn   : s.conn.tx = none
  depth  : s.tx_depth = 0
  around : s.around = []
  made   : s.made = []
  ended  : s.ended = []

-- The writes in blocks that ended normally, as did all the blocks around them.
def Storage.lasting (s : Storage ω) : List ω :=
  (s.made.filter fun e => e.2.all fun b => b ∈ s.ended).map Prod.fst

theorem lasting_nil (s : Storage ω) : Transactions.lasting [] s.ended s.made = s.lasting := by
  rw [Transactions.lasting, Storage.lasting]
  refine congrArg _ <| List.filter_congr fun e _ => ?_
  congr 1
  funext b
  refine decide_eq_decide.mpr <| or_iff_right List.not_mem_nil

-- Blocks are atomic however they nest and wherever something is raised and caught, and each leaves
-- the depth and the scope as they were.
theorem blocks_atomic (b : Body ω) (s : Storage ω) :
    (b.guarded = true → Idle s →
      (b.run s).2.conn.tx = none ∧ (b.run s).2.conn.committed.writes =
        s.conn.committed.writes ++ (b.run s).2.lasting) ∧
    (∀ refusals, Frame s (s._tx refusals b.run).2) ∧
    ∀ workspace_id refusals, Frame s (s.workspace_transaction workspace_id refusals b.run).2 := by
  refine ⟨fun hguarded hidle => ?_, fun refusals => ._tx <| frame_run b,
    fun workspace_id refusals => .workspace_transaction <| frame_run b⟩
  have hs : Sane s := ⟨iff_of_true hidle.conn hidle.depth, hidle.around ▸ List.forall_mem_nil _⟩
  obtain ⟨log, closed, h⟩ := worked_run b s hs fun _ => hguarded
  obtain ⟨rows, hconn, hwrites⟩ := h.conn
  have hwork : s.conn.work = s.conn.committed := by rw [Connection.work, hidle.conn]
  have hlog : (b.run s).2.lasting = lasting s.around closed log := by
    rw [← lasting_nil, h.made, h.ended, hidle.made, hidle.ended, hidle.around]
    rfl
  rw [hlog, hconn, Connection.with_work, hidle.conn, ← hwork]
  exact ⟨rfl, hwrites⟩

namespace Nested

def storage : Storage ℕ :=
  ⟨false, ⟨⟨[], none⟩, none⟩, 0, none, 0, [], [], []⟩

-- An inner block raises, which the outer one catches before it goes on.
def program : Body ℕ :=
  .workspace "w" {} (.write 1 <|
    .attempt (.tx {} (.write 2 <| .raise "no such row") .done) .done <|
    .tx {} (.write 3 .done) <|
    .write 4 .done) .done

theorem idle : Idle storage :=
  ⟨rfl, rfl, rfl, rfl, rfl⟩

end Nested

theorem blocks_atomic_nested :
    (Nested.program.run Nested.storage).2.conn.committed.writes = [1, 3, 4] :=
  ((blocks_atomic Nested.program Nested.storage).left rfl Nested.idle).right.trans <| by decide

end Transactions
