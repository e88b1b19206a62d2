import Traceline.Operations.Retention
import Traceline.Artifacts.Theorems.Publication
import Mathlib.Data.List.Dedup
import Mathlib.Data.List.TakeWhile

namespace Operations

open Artifacts (ArtifactRecord Database Path final hex32 identity)
open Streaming (Bytes)
open Versions (Actor)

section Revisions

variable {ι : Type} (loads : String → Option Json)

-- The result of the job names the artifact.
def Job.Names (j : Job) (x : String) : Prop :=
  x ∈ (artifact_ids loads j).getD []

def Job.isRevision (j : Job) : Bool :=
  (artifact_ids loads j).isSome

-- The preview revisions of a workspace, from the newest on.
def State.revisions (s : State ι) (workspace_id : String) : List Job :=
  (s.preview_rows workspace_id).filter (·.isRevision loads)

variable {loads} {s : State ι} {workspace_id cutoff x : String}

theorem mem_outdated {n : ℕ} {rows : List Job} : x ∈ outdated loads cutoff n rows ↔
    ∃ j ∈ (rows.filter (·.isRevision loads)).drop (keep_revisions - n),
      j.updated_at < cutoff ∧ j.Names loads x := by
  induction rows generalizing n with
  | nil           => simp [outdated]
  | cons row rows ih =>
    unfold outdated
    cases hids : artifact_ids loads row with
    | none     => simpa [Job.isRevision, hids] using ih
    | some ids =>
      have hsome : row.isRevision loads = true := by simp [Job.isRevision, hids]
      have hfilter : (row :: rows).filter (·.isRevision loads) =
          row :: rows.filter (·.isRevision loads) := List.filter_cons_of_pos hsome
      rw [hfilter]
      by_cases hn : n < keep_revisions
      · have hdrop : keep_revisions - n = (keep_revisions - (n + 1)) + 1 := by omega
        simp only [hn, if_true]
        rw [ih, hdrop, List.drop_succ_cons]
      · have hzero : keep_revisions - n = 0 := by omega
        simp only [hn, if_false]
        replace ih := ih (n := n)
        rw [hzero] at ih ⊢
        rw [List.drop_zero] at ih ⊢
        rw [List.exists_mem_cons_iff, ← ih]
        by_cases hold : row.updated_at < cutoff
        · simp [hold, Job.Names, hids]
        · simp [hold]

theorem mem_preview_artifact_ids_before :
    x ∈ s.preview_artifact_ids_before loads workspace_id cutoff ↔
      ∃ j ∈ (s.revisions loads workspace_id).drop keep_revisions,
        j.updated_at < cutoff ∧ j.Names loads x :=
  List.mem_dedup.trans mem_outdated

theorem Job.Names.isSome {j : Job} (h : j.Names loads x) : j.result_json.isSome := by
  cases hj : j.result_json with
  | some _ => rfl
  | none   => simp [Names, artifact_ids, hj] at h

-- What is protected is what is left when the expired ids are taken away, so that taking it away
-- from them leaves them all.
theorem filter_protected {ids all : List String} :
    ids.filter (· ∉ all.filter (· ∉ ids)) = ids := by
  refine List.filter_eq_self.mpr fun x hx => ?_
  simp [hx]

end Revisions

section Deletion

variable {ι : Type} {s t : Artifacts.State ι} {i : ι} {actor : Actor}

-- What `record` and `get` find of an artifact.
def artifact (s : Artifacts.State ι) (id : String × String) : Option ArtifactRecord × Option Bytes :=
  (s.db.rows.find id, if hex32 id.2 then s.read (final id) else none)

-- The row is there and no version refers to it.
def Deletable (s : Artifacts.State ι) (id : String × String) : Prop :=
  s.db.referenced id = false ∧ (s.db.rows.find id).isSome

-- The deletion raises at this artifact, after it deleted the row or before.
def Stops (s : Artifacts.State ι) (id : String × String) : Prop :=
  ¬hex32 id.2 ∨ (¬identity id.1 ∧ Deletable s id)

theorem delete_artifact_eq {d : Database} {id : String × String} (h : d.rows.find id = none) :
    d.delete_artifact id = d := by
  have hrows : d.rows.delete (·.id = id) = d.rows := by
    unfold Table.delete
    congr 1
    refine List.filter_eq_self.mpr fun row hrow => ?_
    simpa using Table.find_eq_none_iff.mp h row hrow
  unfold Database.delete_artifact
  obtain ⟨rows, tables, ready⟩ := d
  simp only [hrows] at *
  simp only [← ready]

theorem countP_id {d : Database} {id : String × String} :
    d.rows.rows.countP (·.id = id) = (d.rows.find id).isSome.toNat := by
  rw [List.countP_eq_length_filter, Table.filter_key]
  cases d.rows.find id <;> rfl

-- The state with a committed database, and what that says of its artifacts.
theorem artifact_of_delete {id id' : String × String}
    (hd : t.db = s.db.delete_artifact id) (hf : ∀ p, p ≠ final id → t.read p = s.read p)
    (hne : id' ≠ id) : artifact t id' = artifact s id' := by
  have hpath : final id' ≠ final id := by
    intro h
    exact hne <| Prod.ext (congrArg Path.workspace_id h) (congrArg Path.name h)
  unfold artifact
  rw [hd, hf _ hpath]
  unfold Database.delete_artifact
  dsimp only
  rw [Table.find_delete, if_neg hne]

-- What a call of `delete_unreferenced` leaves behind.
structure Deleted (s : Artifacts.State ι) (id : String × String) (r : Except Artifacts.Error Bool)
    (t : Artifacts.State ι) : Prop where
  references : t.db.tables.references = s.db.tables.references
  stops      : Stops s id ↔ ∃ e, r = .error e
  other      : ∀ id', id' ≠ id → artifact t id' = artifact s id'
  kept       : ¬(hex32 id.2 ∧ Deletable s id) → artifact t id = artifact s id
  gone       : hex32 id.2 → Deletable s id → t.db.rows.find id = none

-- What the call answers, and the files that are not the artifact's.
structure Answered (s : Artifacts.State ι) (id : String × String) (r : Except Artifacts.Error Bool)
    (t : Artifacts.State ι) : Prop where
  returns : ∀ b, r = .ok b → (b ↔ Deletable s id)
  files   : ∀ q : Artifacts.File → Bool, (∀ f, hex32 id.2 → f.path = final id → q f = false) →
    t.files.rows.filter q = s.files.rows.filter q

theorem eval_execute (c : Artifacts.Statement ι) :
    (Artifacts.execute c).eval (Artifacts.store ι) served s = (Artifacts.store ι).perform c s := by
  change (Artifacts.perform c).eval _ _ _ = _
  exact Prog.eval_perform (S := Artifacts.sig ι) c

theorem deleted_of_same {id : String × String} {r : Except Artifacts.Error Bool}
    (hdb : t.db = s.db) (hfiles : t.files = s.files) (hstops : Stops s id ↔ ∃ e, r = .error e)
    (hkept : ¬(hex32 id.2 ∧ Deletable s id)) : Deleted s id r t := by
  have hsame : ∀ id', artifact t id' = artifact s id' := by
    intro id'
    unfold artifact Artifacts.State.read
    rw [hdb, hfiles]
  exact {
    references   := by rw [hdb]
    stops        := hstops
    other id' _  := hsame id'
    kept _       := hsame id
    gone hh hd   := absurd ⟨hh, hd⟩ hkept
  }

theorem delete_row_eval (id : String × String) (tx : Artifacts.Tx ι) (htx : s.tx = some tx) :
    (Artifacts.ArtifactStore.delete_row id.1 id.2).eval (Artifacts.store ι) served s =
      if tx.db.referenced id then (.ok false, s)
      else (.ok (tx.db.rows.find id).isSome,
        { s with tx := some { tx with db := tx.db.delete_artifact id } }) := by
  have hcurrent : s.current = tx.db := by simp [Artifacts.State.current, htx]
  have hselect : (Artifacts.execute (.select_reference id)).eval (Artifacts.store ι) served s =
      (.ok (tx.db.referenced id), s) := by
    rw [eval_execute]
    dsimp only [Artifacts.store]
    rw [hcurrent]
  have hdelete := Artifacts.State.perform_delete_artifact (d := tx.db) (i := tx.owner) id htx
  unfold Artifacts.ArtifactStore.delete_row
  rw [Prog.eval_bind_ok hselect]
  cases href : tx.db.referenced id with
  | true  => rfl
  | false =>
    rw [href, if_neg Bool.false_ne_true, countP_id, ← eval_execute] at hdelete
    refine (Prog.eval_bind_ok hdelete).trans ?_
    cases tx.db.rows.find id <;> rfl

-- The transaction of `delete_unreferenced` commits what it did to the row.
theorem transaction_eval (id : String × String) : ∃ t,
    (Artifacts.workspace_transaction i (Artifacts.ArtifactStore.delete_row id.1 id.2)).eval
        (Artifacts.store ι) served s = (.ok (!s.db.referenced id && (s.db.rows.find id).isSome), t) ∧
      t.files = s.files ∧
      t.db = if s.db.referenced id then s.db else s.db.delete_artifact id := by
  have hbegin : (Artifacts.execute (.begin i)).eval (Artifacts.store ι) served s =
      (.ok (), { s with tx := some ⟨i, s.db⟩ }) := eval_execute _
  have hcommit : ∀ u : Artifacts.State ι, (Artifacts.execute .commit).eval (Artifacts.store ι)
      served u = (.ok (), u.commit) := fun u => eval_execute _
  have hrow := delete_row_eval (s := { s with tx := some ⟨i, s.db⟩ }) id ⟨i, s.db⟩ rfl
  cases href : s.db.referenced id with
  | true  =>
    rw [href, if_pos rfl] at hrow
    refine ⟨_, (Prog.eval_bind_ok hbegin).trans <| Prog.eval_tryCatch_ok <|
      (Prog.eval_bind_ok hrow).trans <| Prog.eval_bind_ok <| hcommit _, rfl, rfl⟩
  | false =>
    rw [href, if_neg Bool.false_ne_true] at hrow
    refine ⟨_, (Prog.eval_bind_ok hbegin).trans <| Prog.eval_tryCatch_ok <|
      (Prog.eval_bind_ok hrow).trans <| Prog.eval_bind_ok <| hcommit _, rfl, rfl⟩

theorem delete_file_eval (path : Path) : ∃ t,
    (Artifacts.ArtifactStore.delete_file path).eval (Artifacts.store ι) served s = (.ok (), t) ∧
      t.db = s.db ∧ (∀ p, p ≠ path → t.read p = s.read p) ∧
      ∀ q : Artifacts.File → Bool, (∀ f, f.path = path → q f = false) →
        t.files.rows.filter q = s.files.rows.filter q := by
  have hfile : (Artifacts.execute (.is_file path)).eval (Artifacts.store ι) served s =
      (.ok (s.read path).isSome, s) := eval_execute _
  have hunlink : (Artifacts.execute (.unlink path false)).eval (Artifacts.store ι) served s =
      if (s.read path).isNone && !false then (.error <| .os_error "FileNotFoundError", s)
      else (.ok (), s.unlink path) := eval_execute _
  unfold Artifacts.ArtifactStore.delete_file
  rw [Prog.eval_bind_ok hfile]
  cases hread : s.read path with
  | none      => exact ⟨s, rfl, rfl, fun _ _ => rfl, fun _ _ => rfl⟩
  | some data =>
    rw [hread] at hunlink
    refine ⟨_, hunlink, rfl, fun p hp => Artifacts.State.read_unlink.trans <| if_neg hp, ?_⟩
    intro q hq
    rw [Artifacts.State.unlink, Table.delete, List.filter_filter]
    refine List.filter_congr fun f _ => ?_
    by_cases hf : f.path = path
    · rw [hq f hf, Bool.false_and]
    · simp [hf]

theorem directory_eq (h : Artifacts._require actor true actor.workspace_id = .ok ()) :
    Artifacts._directory actor actor.workspace_id = Artifacts.check (identity actor.workspace_id)
      (.workflow_error "Invalid workspace identity" "validation_error" 422) := by
  have hrequire : Artifacts._require actor false actor.workspace_id = .ok () := by
    unfold Artifacts._require at h ⊢
    cases hc : Artifacts.check (actor.actor_id ≠ "" && actor.workspace_id ≠ "")
      (.workflow_error "Authentication required" "unauthorized" 401) with
    | error e => rw [hc] at h; cases h
    | ok _    => simp [Artifacts.check, bind, Except.bind]
  unfold Artifacts._directory
  rw [hrequire]
  rfl

theorem delete_unreferenced_eval {x : String}
    (h : Artifacts._require actor true actor.workspace_id = .ok ()) : ∃ r t,
    (Artifacts.ArtifactStore.delete_unreferenced i actor actor.workspace_id x).eval
        (Artifacts.store ι) served s = (r, t) ∧ Deleted s (actor.workspace_id, x) r t ∧
      Answered s (actor.workspace_id, x) r t := by
  let id := (actor.workspace_id, x)
  unfold Artifacts.ArtifactStore.delete_unreferenced
  rw [Prog.eval_bind_ok <| Prog.eval_ofExcept_eq h]
  by_cases hx : hex32 x
  case neg =>
    refine ⟨_, _, Prog.eval_bind_error <| Prog.eval_ofExcept_eq <| if_neg hx,
      deleted_of_same rfl rfl ?_ fun h => hx h.left, ⟨fun _ h => ?_, fun _ _ => rfl⟩⟩
    · exact iff_of_true (.inl hx) ⟨_, rfl⟩
    · cases h
  have hhex : Artifacts.check (hex32 x) .not_found = .ok () := if_pos hx
  rw [Prog.eval_bind_ok <| Prog.eval_ofExcept_eq hhex]
  obtain ⟨u, hu, hfiles, hdb⟩ := transaction_eval (s := s) (i := i) id
  rw [Prog.eval_bind_ok hu]
  have hdeletable : Deletable s id ↔ (!s.db.referenced id && (s.db.rows.find id).isSome) = true := by
    simp [Deletable]
  by_cases hd : Deletable s id
  case neg =>
    rw [show (!s.db.referenced id && (s.db.rows.find id).isSome) = false by
      simpa using mt hdeletable.mpr hd]
    refine ⟨_, _, rfl, deleted_of_same ?_ hfiles ?_ fun h => hd h.right, ⟨?_, ?_⟩⟩
    · rw [hdb]
      split
      case isTrue    => rfl
      case isFalse h =>
        refine delete_artifact_eq ?_
        simpa [Deletable, eq_false_of_ne_true h] using hd
    · refine iff_of_false ?_ (by rintro ⟨_, h⟩; cases h)
      rintro (h | h)
      · exact h hx
      · exact hd h.right
    · intro b hb
      have hb : false = b := Except.ok.inj hb
      exact hb ▸ iff_of_false Bool.false_ne_true hd
    · exact fun q _ => by rw [hfiles]
  rw [hdeletable.mp hd]
  rw [if_neg (by simp [hd.left])] at hdb
  have hgone : ∀ v : Artifacts.State ι, v.db = u.db → v.db.rows.find id = none := by
    intro v hv
    rw [hv, hdb]
    exact Table.find_delete.trans <| if_pos (Eq.refl id)
  have hrefs : ∀ v : Artifacts.State ι, v.db = u.db →
      v.db.tables.references = s.db.tables.references := by
    intro v hv
    rw [hv, hdb]
    rfl
  simp only [Bool.not_true, Bool.false_eq_true, if_false]
  by_cases hi : identity actor.workspace_id
  case neg =>
    have hdirectory := (directory_eq h).trans <| if_neg hi
    refine ⟨_, _, Prog.eval_bind_error <| Prog.eval_ofExcept_eq hdirectory,
      ⟨hrefs u rfl, ?_, fun id' hne => ?_, ?_, ?_⟩, ⟨fun _ h => ?_, fun q _ => by rw [hfiles]⟩⟩
    · exact iff_of_true (.inr ⟨hi, hd⟩) ⟨_, rfl⟩
    · exact artifact_of_delete hdb (fun p _ => by rw [Artifacts.State.read, hfiles]; rfl) hne
    · exact fun h => absurd ⟨hx, hd⟩ h
    · exact fun _ _ => hgone u rfl
    · cases h
  rw [Prog.eval_bind_ok <| Prog.eval_ofExcept_eq <| (directory_eq h).trans <| if_pos hi]
  obtain ⟨v, hv, hvdb, hvread, hvfiles⟩ := delete_file_eval (s := u) (final id)
  refine ⟨_, _, Prog.eval_bind_ok hv, ⟨hrefs v hvdb, ?_, fun id' hne => ?_, ?_, ?_⟩, ⟨?_, ?_⟩⟩
  · refine iff_of_false ?_ (by rintro ⟨_, h⟩; cases h)
    rintro (h | h)
    · exact h hx
    · exact h.left hi
  · refine artifact_of_delete (hvdb.trans hdb) (fun p hp => (hvread p hp).trans ?_) hne
    rw [Artifacts.State.read, hfiles]
    rfl
  · exact fun h => absurd ⟨hx, hd⟩ h
  · exact fun _ _ => hgone v hvdb
  · intro b hb
    have hb : true = b := Except.ok.inj hb
    exact hb ▸ iff_of_true rfl hd
  · intro q hq
    rw [hvfiles q fun f => hq f hx, hfiles]

theorem deletable_iff {id : String × String} {t : Artifacts.State ι}
    (hr : t.db.tables.references = s.db.tables.references) (ha : artifact t id = artifact s id) :
    Deletable t id ↔ Deletable s id := by
  have href : t.db.referenced id = s.db.referenced id := by
    unfold Database.referenced
    rw [hr]
  have hrow : t.db.rows.find id = s.db.rows.find id := (Prod.mk.inj ha).left
  rw [Deletable, Deletable, href, hrow]

-- The deletion gets to the artifact.
def Reached (s : Artifacts.State ι) (workspace_id : String) (ids : List String) (x : String) : Prop :=
  ∀ y ∈ ids, y < x → ¬Stops s (workspace_id, y)

-- The artifacts that a list of ids deletes.
def Gone (s : Artifacts.State ι) (workspace_id : String) (ids : List String) (x : String) : Prop :=
  x ∈ ids ∧ hex32 x ∧ Deletable s (workspace_id, x) ∧ Reached s workspace_id ids x

structure Pruned (s : Artifacts.State ι) (workspace_id : String) (ids : List String)
    (t : Artifacts.State ι) : Prop where
  references : t.db.tables.references = s.db.tables.references
  other      : ∀ w x, ¬(w = workspace_id ∧ Gone s workspace_id ids x) →
    artifact t (w, x) = artifact s (w, x)
  gone       : ∀ x, Gone s workspace_id ids x → t.db.rows.find (workspace_id, x) = none

-- After the first artifact the rest of them are deleted as they would have been.
theorem Pruned.cons {w x : String} {ids : List String} {r : Except Artifacts.Error Bool}
    {t u : Artifacts.State ι} (hsorted : ∀ y ∈ ids, x < y) (hd : Deleted s (w, x) r t)
    (hx : ¬Stops s (w, x)) (h : Pruned t w ids u) : Pruned s w (x :: ids) u := by
  have hne : ∀ y ∈ ids, (w, y) ≠ (w, x) :=
    fun y hy he => (hsorted y hy).ne' (congrArg Prod.snd he)
  have hdel : ∀ y ∈ ids, Deletable t (w, y) ↔ Deletable s (w, y) :=
    fun y hy => deletable_iff hd.references <| hd.other _ <| hne y hy
  have hstops : ∀ y ∈ ids, Stops t (w, y) ↔ Stops s (w, y) := by
    intro y hy
    rw [Stops, Stops, hdel y hy]
  have hgone : ∀ y ∈ ids, Gone t w ids y ↔ Gone s w (x :: ids) y := by
    intro y hy
    rw [Gone, Gone, hdel y hy]
    refine and_congr (iff_of_true hy <| .tail _ hy) <| and_congr_right fun _ =>
      and_congr_right fun _ => ⟨fun hr z hz hzy => ?_, fun hr z hz hzy => ?_⟩
    · rcases List.mem_cons.mp hz with rfl | hz
      · exact hx
      · exact mt (hstops z hz).mpr <| hr z hz hzy
    · exact mt (hstops z hz).mp <| hr z (.tail _ hz) hzy
  exact {
    references := h.references.trans hd.references
    other w' y hy := by
      by_cases hmem : w' = w ∧ y ∈ ids
      · obtain ⟨rfl, hmem⟩ := hmem
        have hnot : ¬(w' = w' ∧ Gone t w' ids y) := fun h => hy ⟨rfl, (hgone y hmem).mp h.right⟩
        exact (h.other _ _ hnot).trans <| hd.other _ <| hne y hmem
      · have hnot : ¬(w' = w ∧ Gone t w ids y) := fun h => hmem ⟨h.left, h.right.left⟩
        refine (h.other _ _ hnot).trans ?_
        by_cases he : (w', y) = (w, x)
        · obtain ⟨rfl, rfl⟩ := Prod.mk.inj he
          refine hd.kept fun ⟨hh, hdel⟩ => hy ⟨rfl, .head _, hh, hdel, fun z hz hzy => ?_⟩
          rcases List.mem_cons.mp hz with rfl | hz
          · exact absurd hzy <| lt_irrefl _
          · exact absurd hzy <| (hsorted z hz).not_gt
        · exact hd.other _ he
    gone y hy := by
      rcases List.mem_cons.mp hy.left with rfl | hmem
      · have hrow := hd.gone hy.right.left hy.right.right.left
        have hnot : ¬(w = w ∧ Gone t w ids y) := fun h =>
          absurd (hsorted y h.right.left) <| lt_irrefl _
        exact (Prod.mk.inj <| h.other w y hnot).left.trans hrow
      · exact h.gone y <| (hgone y hmem).mpr hy
  }

-- Where the first artifact stops the deletion the rest of them stay.
theorem Pruned.stop {w x : String} {ids : List String} {r : Except Artifacts.Error Bool}
    {t : Artifacts.State ι} (hsorted : ∀ y ∈ ids, x < y) (hd : Deleted s (w, x) r t)
    (hx : Stops s (w, x)) : Pruned s w (x :: ids) t := by
  have hgone : ∀ y, Gone s w (x :: ids) y → y = x := by
    intro y hy
    rcases List.mem_cons.mp hy.left with h | h
    · exact h
    · exact absurd hx <| hy.right.right.right x (.head _) <| hsorted y h
  exact {
    references := hd.references
    other w' y hy := by
      by_cases he : (w', y) = (w, x)
      · obtain ⟨rfl, rfl⟩ := Prod.mk.inj he
        refine hd.kept fun ⟨hh, hdel⟩ => hy ⟨rfl, .head _, hh, hdel, fun z hz hzy => ?_⟩
        rcases List.mem_cons.mp hz with rfl | hz
        · exact absurd hzy <| lt_irrefl _
        · exact absurd hzy <| (hsorted z hz).not_gt
      · exact hd.other _ he
    gone y hy := by
      obtain rfl := hgone y hy
      exact hd.gone hy.right.left hy.right.right.left
  }

theorem pruned_delete_previews (h : Artifacts._require actor true actor.workspace_id = .ok ())
    {ids : List String} (hsorted : ids.Pairwise (· < ·)) (s : State ι) :
    Pruned s.store actor.workspace_id ids (s.delete_previews i actor ids).2.store ∧
      (s.delete_previews i actor ids).2.jobs = s.jobs := by
  induction ids generalizing s with
  | nil           =>
    exact ⟨⟨rfl, fun _ _ _ => rfl, fun x hx => absurd hx.left List.not_mem_nil⟩, rfl⟩
  | cons x ids ih =>
    obtain ⟨hx, hsorted⟩ := List.pairwise_cons.mp hsorted
    obtain ⟨r, t, heval, hd, -⟩ := delete_unreferenced_eval (s := s.store) (i := i) (x := x) h
    have hone : s.delete_unreferenced i actor x = (r.mapError .artifact, { s with store := t }) := by
      unfold State.delete_unreferenced
      rw [heval]
    unfold State.delete_previews
    rw [hone]
    cases r with
    | error e =>
      exact ⟨.stop hx hd <| hd.stops.mpr ⟨e, rfl⟩, rfl⟩
    | ok b    =>
      obtain ⟨hp, hj⟩ := ih hsorted { s with store := t }
      refine ⟨.cons hx hd (fun hs => ?_) hp, hj⟩
      obtain ⟨e, he⟩ := hd.stops.mp hs
      cases he

end Deletion

section Files

variable {ι : Type} {s : State ι}

theorem suffix_of_hex32 {name : String} (h : hex32 name) : Artifacts.suffix name ≠ ".stage" := by
  have hall := (Bool.and_eq_true _ _ ▸ h : _ ∧ _).right
  have hdot : ∀ c ∈ name.toList.reverse, (decide (c ≠ '.')) = true := by
    intro c hc
    have hc := List.all_eq_true.mp hall c <| List.mem_reverse.mp hc
    rw [decide_eq_true_eq]
    rintro rfl
    simp [Char.isDigit] at hc
  have hnone : name.toList.reverse.dropWhile (· ≠ '.') = [] := List.dropWhile_eq_nil_iff.mpr hdot
  unfold Artifacts.suffix
  rw [hnone]
  simp

theorem artifact_of_files {s t : Artifacts.State ι} (hdb : t.db = s.db)
    (hf : ∀ id : String × String, hex32 id.2 → t.read (final id) = s.read (final id))
    (id : String × String) : artifact t id = artifact s id := by
  unfold artifact
  rw [hdb]
  split
  case isTrue h  => rw [hf id h]
  case isFalse h => rfl

theorem unlink_uploads_store {paths : List Path} (h : ∀ p ∈ paths, p.directory = .quarantine) :
    (∀ id, artifact (s.unlink_uploads paths).2.store id = artifact s.store id) ∧
      (s.unlink_uploads paths).2.store.db = s.store.db ∧ (s.unlink_uploads paths).2.jobs = s.jobs := by
  induction paths generalizing s with
  | nil             => exact ⟨fun _ => rfl, rfl, rfl⟩
  | cons path paths ih =>
    obtain ⟨ha, hdb, hj⟩ :=
      ih (s := { s with store := s.store.unlink path }) fun p hp => h p <| .tail _ hp
    have hone : ∀ id, artifact (s.store.unlink path) id = artifact s.store id := by
      refine artifact_of_files (s := s.store) (t := s.store.unlink path) rfl fun id _ => ?_
      refine Artifacts.State.read_unlink.trans <| if_neg fun he => ?_
      have hq := h path <| .head _
      rw [← he] at hq
      cases hq
    exact ⟨fun id => (ha id).trans <| hone id, hdb, hj⟩

theorem delete_old_staging_store {workspace_id : String} {cutoff : ℚ} (id : String × String) :
    artifact (s._delete_old_staging workspace_id cutoff).store id = artifact s.store id := by
  let t := s._delete_old_staging workspace_id cutoff
  refine artifact_of_files (s := s.store) (t := t.store) rfl (fun id hid => ?_) id
  unfold Artifacts.State.read
  congr 1
  change (s.store.files.delete _).find _ = _
  have hstay : ∀ f ∈ s.store.files, f.path = final id → old_staging workspace_id cutoff f = false := by
    intro f _ hf
    have hs := suffix_of_hex32 hid
    simp only [old_staging, hf, Bool.and_eq_false_iff, decide_eq_false_iff_not]
    exact .inl <| .inr hs
  cases hfind : s.store.files.find (final id) with
  | none   =>
    exact Table.find_eq_none_iff.mpr fun f hf => Table.find_eq_none_iff.mp hfind f
      (Table.mem_delete.mp hf).left
  | some f =>
    obtain ⟨hf, hk⟩ := Table.find_eq_some_iff.mp hfind
    exact Table.find_eq_some_iff.mpr ⟨Table.mem_delete.mpr ⟨hf, hstay f hf hk⟩, hk⟩

end Files

section Retention

variable {ι τ : Type} (py : Python) (loads : String → Option Json) (clock : Clock τ)
variable (s : State ι) (i : ι) (r : Request τ)

-- A preview revision that is older than the cutoff and not among the ones that are always kept.
def Expired (j : Job) : Prop :=
  ∃ c, r.cutoffs clock = .ok c ∧ j.updated_at < c.preview_cutoff ∧
    j ∈ (s.revisions loads r.actor.workspace_id).drop keep_revisions

-- What is still there after the call, and what it deleted.
structure Sound (t : State ι) : Prop where
  jobs     : ∀ j ∈ s.jobs, ¬Expired loads clock s r j → ∀ x, j.Names loads x →
    artifact t.store (j.workspace_id, x) = artifact s.store (j.workspace_id, x)
  versions : ∀ ref ∈ s.store.db.tables.references,
    artifact t.store (ref.workspace_id, ref.artifact_id) =
      artifact s.store (ref.workspace_id, ref.artifact_id)
  deleted  : ∀ id, (s.store.db.rows.find id).isSome → t.store.db.rows.find id = none →
    (∀ j ∈ s.jobs, j.workspace_id = id.1 → j.Names loads id.2 → Expired loads clock s r j) ∧
      s.store.db.referenced id = false

-- The call is not refused and is to delete.
def Deletes : Prop :=
  (∃ c, r.cutoffs clock = .ok c) ∧ _workspace_dir py r.actor.workspace_id = .ok () ∧
    r.dry_run = false

-- An expired revision names the artifact.
def Outdated (x : String) : Prop :=
  ∃ j, Expired loads clock s r j ∧ j.Names loads x

-- Nothing that an expired revision shares with a job that is kept can be deleted: a version
-- refers to it, its row is not there, or the deletion stops before it.
def Spares : Prop :=
  Deletes py clock r → ∀ x, Outdated loads clock s r x →
    (∃ j ∈ s.jobs, j.workspace_id = r.actor.workspace_id ∧ j.Names loads x ∧
      ¬Expired loads clock s r j) →
    Deletable s.store (r.actor.workspace_id, x) → hex32 x →
    ∃ y, Outdated loads clock s r y ∧ y < x ∧ Stops s.store (r.actor.workspace_id, y)

variable {py loads clock s i r}

theorem candidates_eq {c : Cutoffs} (hc : r.cutoffs clock = .ok c)
    (hw : _workspace_dir py r.actor.workspace_id = .ok ()) :
    ∃ d, s.candidates py loads clock r = .ok d ∧ d.cutoffs = c ∧
      d.preview_ids = s.preview_artifact_ids_before loads r.actor.workspace_id c.preview_cutoff ∧
      ∀ p ∈ d.upload_paths, p.directory = .quarantine := by
  unfold State.candidates
  rw [hc]
  simp only [bind, Except.bind, hw, filter_protected]
  refine ⟨_, rfl, rfl, rfl, fun p hp => ?_⟩
  obtain ⟨f, hf, rfl⟩ := List.mem_map.mp hp
  have hf := (List.mem_filter.mp hf).right
  simp only [Bool.and_eq_true, decide_eq_true_eq] at hf
  exact hf.left.left.left

-- The ids that are deleted, in the order of their deletion.
theorem candidate_ids {c : Cutoffs} {ids : List String} (hc : r.cutoffs clock = .ok c)
    (hids : ids = s.preview_artifact_ids_before loads r.actor.workspace_id c.preview_cutoff) :
    (∀ x, x ∈ List.insertionSort (· ≤ ·) ids ↔ Outdated loads clock s r x) ∧
      (List.insertionSort (· ≤ ·) ids).Pairwise (· < ·) := by
  constructor
  · intro x
    rw [List.mem_insertionSort, hids, mem_preview_artifact_ids_before]
    refine exists_congr fun j => ⟨fun ⟨hj, hold, hx⟩ => ⟨⟨c, hc, hold, hj⟩, hx⟩, ?_⟩
    rintro ⟨⟨c', hc', hold, hj⟩, hx⟩
    obtain rfl := Except.ok.inj <| hc.symm.trans hc'
    exact ⟨hj, hold, hx⟩
  · have hle : (List.insertionSort (· ≤ ·) ids).Pairwise (· ≤ ·) := List.pairwise_insertionSort _ _
    have hnodup : (List.insertionSort (· ≤ ·) ids).Nodup := by
      refine (List.perm_insertionSort _ _).nodup_iff.mpr ?_
      rw [hids]
      exact List.nodup_dedup _
    exact (hle.and hnodup).imp fun h => lt_of_le_of_ne h.left h.right

theorem require_of_cutoffs {c : Cutoffs} (hc : r.cutoffs clock = .ok c) :
    Artifacts._require r.actor true r.actor.workspace_id = .ok () := by
  unfold Request.cutoffs at hc
  cases h : Artifacts._require r.actor true r.actor.workspace_id with
  | ok _    => rfl
  | error e =>
    rw [h] at hc
    cases hc

-- A call that deletes nothing leaves everything there.
theorem enforce_of_not_deletes (h : ¬Deletes py clock r) :
    (s.enforce_retention py loads clock i r).2 = s := by
  unfold State.enforce_retention
  cases hcand : s.candidates py loads clock r with
  | error e => rfl
  | ok d    =>
    have hdry : r.dry_run = true := by
      by_contra hdry
      unfold State.candidates at hcand
      cases hc : r.cutoffs clock with
      | error e => rw [hc] at hcand; cases hcand
      | ok c    =>
        cases hw : _workspace_dir py r.actor.workspace_id with
        | error e => rw [hc] at hcand; simp [bind, Except.bind, hw] at hcand
        | ok _    => exact h ⟨⟨c, hc⟩, hw, Bool.eq_false_of_not_eq_true hdry⟩
    simp [hdry]

-- A call that deletes does so with the ids of the expired revisions.
theorem enforce_of_deletes (h : Deletes py clock r) : ∃ ids : List String,
    (∀ x, x ∈ ids ↔ Outdated loads clock s r x) ∧
      Pruned s.store r.actor.workspace_id ids (s.enforce_retention py loads clock i r).2.store := by
  obtain ⟨⟨c, hc⟩, hw, hdry⟩ := h
  have hcandidates : ∃ d, s.candidates py loads clock r = .ok d ∧ d.cutoffs = c ∧
      d.preview_ids = s.preview_artifact_ids_before loads r.actor.workspace_id c.preview_cutoff ∧
      ∀ p ∈ d.upload_paths, p.directory = .quarantine := candidates_eq hc hw
  obtain ⟨d, hd, rfl, hids, huploads⟩ := hcandidates
  let ids := List.insertionSort (· ≤ ·) d.preview_ids
  obtain ⟨hmem, hsorted⟩ := candidate_ids hc hids
  have hdry' : (s.enforce_retention py loads clock i r).2 = (s.complete i r.actor d).2 := by
    unfold State.enforce_retention
    simp [hd, hdry]
  let u := s.delete_export_snapshots_before r.actor.workspace_id d.cutoffs.export_cutoff
  have hp := (pruned_delete_previews (i := i) (require_of_cutoffs hc) hsorted u).left
  refine ⟨ids, hmem, ?_⟩
  rw [hdry']
  unfold State.complete
  dsimp only
  cases hdel : u.delete_previews i r.actor ids with
  | mk result t =>
    rw [hdel] at hp
    cases result with
    | error e => exact hp
    | ok n    =>
      obtain ⟨ha, hdb, -⟩ := unlink_uploads_store (s := t) huploads
      have hsame : ∀ id, artifact ((t.unlink_uploads d.upload_paths).2._delete_old_staging
          r.actor.workspace_id d.cutoffs.upload_cutoff).store id = artifact t.store id :=
        fun id => (delete_old_staging_store id).trans <| ha id
      exact {
        references := (congrArg (·.tables.references) hdb).trans hp.references
        other w x h := (hsame _).trans <| hp.other w x h
        gone x h    := by
          have hgone := hp.gone x h
          rw [← hdb] at hgone
          exact hgone
      }

theorem gone_iff {ids : List String} (h : ∀ x, x ∈ ids ↔ Outdated loads clock s r x) {x : String} :
    Gone s.store r.actor.workspace_id ids x ↔ Outdated loads clock s r x ∧ hex32 x ∧
      Deletable s.store (r.actor.workspace_id, x) ∧
      ∀ y, Outdated loads clock s r y → y < x → ¬Stops s.store (r.actor.workspace_id, y) := by
  simp only [Gone, Reached, h]

theorem sound_of_same {t : State ι} (h : ∀ id, artifact t.store id = artifact s.store id) :
    Sound loads clock s r t where
  jobs j _ _ x _     := h _
  versions ref _     := h _
  deleted id hs ht   := by
    have hrow : t.store.db.rows.find id = s.store.db.rows.find id := (Prod.mk.inj (h id)).left
    rw [← hrow, ht] at hs
    cases hs

-- The call keeps what is referred to exactly where no artifact that an expired revision names and
-- that it can delete is named by a job that is kept as well.
theorem sound_enforce_retention_iff (py : Python) (loads : String → Option Json) (clock : Clock τ)
    (s : State ι) (i : ι) (r : Request τ) :
    Sound loads clock s r (s.enforce_retention py loads clock i r).2 ↔
      Spares py loads clock s r := by
  by_cases hdel : Deletes py clock r
  case neg =>
    rw [enforce_of_not_deletes hdel]
    exact iff_of_true (sound_of_same fun _ => rfl) fun h => absurd h hdel
  have hpruned : ∃ ids : List String, (∀ x, x ∈ ids ↔ Outdated loads clock s r x) ∧
      Pruned s.store r.actor.workspace_id ids (s.enforce_retention py loads clock i r).2.store :=
    enforce_of_deletes hdel
  obtain ⟨ids, hmem, hp⟩ := hpruned
  generalize (s.enforce_retention py loads clock i r).2 = t at hp ⊢
  constructor
  case mp =>
    rintro hs - x hout ⟨j, hj, hw, hx, hkept⟩ hd hh
    by_contra hstop
    push Not at hstop
    have hgone : Gone s.store r.actor.workspace_id ids x := (gone_iff hmem).mpr ⟨hout, hh, hd, hstop⟩
    have hsame := (Prod.mk.inj <| hs.jobs j hj hkept x hx).left
    rw [hw, hp.gone x hgone] at hsame
    obtain ⟨-, hrow⟩ := hd
    rw [← hsame] at hrow
    cases hrow
  case mpr =>
    intro hs
    have hnone : ∀ x, Gone s.store r.actor.workspace_id ids x → ∀ j ∈ s.jobs,
        j.workspace_id = r.actor.workspace_id → j.Names loads x → Expired loads clock s r j := by
      intro x hgone j hj hw hx
      by_contra hkept
      obtain ⟨hout, hh, hd, hreach⟩ := (gone_iff hmem).mp hgone
      obtain ⟨y, hy, hlt, hstop⟩ := hs hdel x hout ⟨j, hj, hw, hx, hkept⟩ hd hh
      exact hreach y hy hlt hstop
    exact {
      jobs j hj hkept x hx := hp.other _ _ fun ⟨hw, hgone⟩ => hkept <| hnone x hgone j hj hw hx
      versions ref href    := by
        refine hp.other _ _ fun ⟨hw, hgone⟩ => ?_
        obtain ⟨-, -, ⟨hd, -⟩, -⟩ := (gone_iff hmem).mp hgone
        have hn := List.any_eq_false.mp hd ref href
        simp [hw] at hn
      deleted id hrow hnil := by
        obtain ⟨w, x⟩ := id
        by_cases hgone : w = r.actor.workspace_id ∧ Gone s.store r.actor.workspace_id ids x
        · obtain ⟨rfl, hgone⟩ := hgone
          exact ⟨hnone x hgone, ((gone_iff hmem).mp hgone).right.right.left.left⟩
        · have hsame := (Prod.mk.inj <| hp.other w x hgone).left
          rw [← hsame, hnil] at hrow
          cases hrow
    }

end Retention

namespace Sample

def artifact_id : String :=
  "0123456789abcdef0123456789abcdef"

-- A preview revision with one artifact, older than the cutoff.
def job (job_id : String) : Job where
  workspace_id := "w"
  job_id
  status       := "completed"
  command_json := "dashboard_preview"
  result_json  := some ""
  updated_at   := "2020"

def loads (_ : String) : Option Json :=
  some <| .obj [("artifact_ids", .arr [.str artifact_id])]

-- One revision more than are always kept.
def jobs : Table Job.key where
  rows  := ["u", "t", "s", "r", "q", "p", "o", "n", "m", "l", "k", "j", "i", "h", "g", "f", "e", "d",
    "c", "b", "a"].map job
  nodup := by decide

def rows : Table ArtifactRecord.id where
  rows  := [⟨artifact_id, "w", "", 0, "text/html", "2020"⟩]
  nodup := by decide

def state : State Unit where
  store   := {
    db      := ⟨rows, ⟨[], [("w", artifact_id)], .empty, .empty, .empty⟩, rfl⟩
    tx      := none
    files   := .empty
    clock   := 0
    drawn   := []
    deleted := []
  }
  jobs
  exports := .empty

def clock : Clock Unit where
  now             := ()
  aware _         := true
  astimezone _    := .ok ()
  minus_days _ _  := .ok ()
  minus_hours _ _ := .ok ()
  isoformat _     := "2026"
  timestamp _     := 0

def request : Request Unit where
  actor := ⟨"a", "w", .owner⟩

theorem not_expired : ¬Expired loads clock state request (job "u") := by
  rintro ⟨c, -, -, hj⟩
  have hnot : job "u" ∉ (state.revisions loads "w").drop keep_revisions := by decide +kernel
  exact hnot hj

theorem gone : (state.enforce_retention .ascii loads clock () request).2.store.db.rows.find
    ("w", artifact_id) = none := by
  decide

end Sample

-- An artifact that all revisions share is deleted with the oldest of them.
theorem not_sound_enforce_retention : ¬Sound Sample.loads Sample.clock Sample.state Sample.request
    (Sample.state.enforce_retention .ascii Sample.loads Sample.clock () Sample.request).2 := by
  intro h
  have hmem : Sample.job "u" ∈ Sample.state.jobs := List.mem_map_of_mem (.head _)
  have hnames : (Sample.job "u").Names Sample.loads Sample.artifact_id := List.mem_singleton_self _
  have hrow := (Prod.mk.inj <| h.jobs _ hmem Sample.not_expired _ hnames).left
  have hthere : Sample.state.store.db.rows.find ("w", Sample.artifact_id) ≠ none := by
    decide
  exact hthere <| hrow.symm.trans Sample.gone

end Operations
