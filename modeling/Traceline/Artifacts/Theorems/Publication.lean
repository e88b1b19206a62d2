import Traceline.Library.Rely
import Traceline.Artifacts.Store

namespace Artifacts

open Streaming (Bytes)
open Versions (Actor Request VersionArtifact)

section Names

theorem not_hex32_of_stage {a name : String} (ha : a = name ++ ".stage") : ¬hex32 a := by
  subst ha
  intro h
  have hall := (Bool.and_eq_true _ _ ▸ h : _ ∧ _).right
  have hdot := List.all_eq_true.mp hall '.' (by simp)
  simp [Char.isDigit] at hdot

end Names

namespace State

variable {ι : Type} {s : State ι} {p q : Path} {data : Bytes}

theorem perform_read_bytes : (store ι).perform (.read_bytes p) s =
    ((s.read p).elim (.error <| .os_error "FileNotFoundError") .ok, s) := by
  dsimp only [store]
  cases s.read p <;> rfl

theorem read_write : (s.write p data).read q = if p = q then some data else s.read q := by
  unfold read write
  rw [Table.find_upsert]
  change Option.map _ (if p = q then _ else _) = _
  split <;> rfl

theorem read_unlink : (s.unlink p).read q = if q = p then none else s.read q := by
  unfold read unlink
  rw [Table.find_delete]
  split <;> rfl

theorem within_eq {α : Type} {i : ι} {d : Database} {f : Database → Except Error α × Database}
    (h : s.tx = some ⟨i, d⟩) : s.within f = ((f d).1, { s with tx := some ⟨i, (f d).2⟩ }) := by
  unfold within
  rw [h]

theorem perform_insert_artifact {i : ι} {d : Database} {record : ArtifactRecord}
    (h : s.tx = some ⟨i, d⟩) : (store ι).perform (.insert_artifact record) s =
      ((d.insert_artifact record).elim (.error <| .integrity_error "artifacts") fun _ => .ok (),
        { s with tx := some ⟨i, (d.insert_artifact record).getD d⟩ }) := by
  dsimp only [store]
  rw [within_eq h]
  cases d.insert_artifact record <;> rfl

theorem perform_delete_artifact {i : ι} {d : Database} (id : String × String)
    (h : s.tx = some ⟨i, d⟩) : (store ι).perform (.delete_artifact id) s =
      if d.referenced id then
        (.error <| .integrity_error "version_artifacts", { s with tx := some ⟨i, d⟩ })
      else
        (.ok <| d.rows.rows.countP (·.id = id), { s with tx := some ⟨i, d.delete_artifact id⟩ }) := by
  dsimp only [store]
  rw [within_eq h]
  split <;> rfl

theorem perform_versions {i : ι} {d : Database} (c : Versions.Statement) (h : s.tx = some ⟨i, d⟩) :
    (store ι).perform (.versions c) s =
      ((d.versions c).1.mapError .version, { s with tx := some ⟨i, (d.versions c).2⟩ }) := by
  dsimp only [store]
  rw [within_eq h]

theorem replace_error {t : State ι} {e : Error} (h : s.replace p q = (.error e, t)) : t = s := by
  unfold replace at h
  split at h
  · exact (Prod.mk.inj h).right.symm
  · cases h

theorem read_replace {t : State ι} (h : s.replace p q = (.ok (), t)) :
    ∃ data, s.read p = some data ∧
      t.read = fun r => if q = r then some data else if r = p then none else s.read r := by
  unfold replace at h
  split at h
  case h_1 => cases h
  case h_2 file hf =>
    obtain ⟨-, rfl⟩ := Prod.mk.inj h
    refine ⟨file.data, by simp [read, hf], funext fun r => ?_⟩
    unfold read
    rw [Table.find_upsert, Table.find_delete]
    change Option.map _ (if q = r then _ else _) = _
    split
    case isTrue  => rfl
    case isFalse => split <;> rfl

end State

section Invariant

variable {ι : Type} (sha256 : Bytes → String)

-- A name that `put` gives to a file before it publishes it.
def Stage (p : Path) : Prop :=
  ∃ name, p.name = name ++ ".stage"

-- An artifact as its row says it is.
def Stored (s : State ι) (row : ArtifactRecord) : Prop :=
  ∃ data, s.read (final row.id) = some data ∧ sha256 data = row.checksum ∧
    data.length = row.size_bytes

-- Every reference is to a row.
def Database.Linked (d : Database) : Prop :=
  ∀ r ∈ d.tables.references, ∃ row ∈ d.rows, row.id = (r.workspace_id, r.artifact_id)

structure Intact (s : State ι) : Prop where
  linked : s.db.Linked
  stored : ∀ row ∈ s.db.rows, Stored sha256 s row

structure Invariant (s : State ι) : Prop extends Intact sha256 s where
  hex     : ∀ d ∈ s.drawn, hex32 d.2
  unique  : ∀ i j a, (i, a) ∈ s.drawn → (j, a) ∈ s.drawn → i = j
  drawn   : ∀ row ∈ s.db.rows, ∃ i, (i, row.artifact_id) ∈ s.drawn
  retired : ∀ id ∈ s.deleted, (∃ i, (i, id.2) ∈ s.drawn) ∧ ∀ row ∈ s.db.rows, row.id ≠ id

-- The id is one that the thread drew and has not published.
structure Pending (i : ι) (a : String) (s : State ι) : Prop where
  drawn   : (i, a) ∈ s.drawn
  no_row  : ∀ row ∈ s.db.rows, row.artifact_id ≠ a
  deleted : ∀ id ∈ s.deleted, id.2 ≠ a

theorem Pending.of_rows {i : ι} {a : String} {s t : State ι} (h : Pending i a s) (hd : t.db = s.db)
    (hg : ∀ d ∈ s.drawn, d ∈ t.drawn) (hx : t.deleted = s.deleted) : Pending i a t where
  drawn   := hg _ h.drawn
  no_row  := hd ▸ h.no_row
  deleted := hx ▸ h.deleted

-- What a thread may rely on while the others go on.
structure Rely (i : ι) (s t : State ι) : Prop where
  held    : s.owner = some i → t.tx = s.tx ∧ t.db = s.db
  free    : s.owner ≠ some i → t.owner ≠ some i
  pending : ∀ a, Pending i a s → Pending i a t
  file    : s.owner = some i → ∀ w a, Pending i a s → t.read (final (w, a)) = s.read (final (w, a))
  stage   : s.owner = some i → ∀ p, Stage p → t.read p = s.read p ∨ t.read p = none
  deleted : ∀ id ∈ s.deleted, id ∈ t.deleted

namespace Rely

variable {i : ι} {s t u : State ι}

theorem refl : Rely i s s where
  held _      := ⟨rfl, rfl⟩
  free h      := h
  pending _ h := h
  file _ _ _ _ := rfl
  stage _ _ _ := .inl rfl
  deleted _ h := h

theorem owner (h : Rely i s t) (ho : s.owner = some i) : t.owner = some i := by
  unfold State.owner
  rw [(h.held ho).left]
  exact ho

theorem trans (h : Rely i s t) (h' : Rely i t u) : Rely i s u where
  held ho      := ⟨(h'.held <| h.owner ho).left.trans (h.held ho).left,
    (h'.held <| h.owner ho).right.trans (h.held ho).right⟩
  free ho      := h'.free <| h.free ho
  pending a hp := h'.pending a <| h.pending a hp
  file ho w a hp := (h'.file (h.owner ho) w a <| h.pending a hp).trans <| h.file ho w a hp
  stage ho p hp := by
    rcases h'.stage (h.owner ho) p hp with h₁ | h₁
    · rw [h₁]
      exact h.stage ho p hp
    · exact .inr h₁
  deleted id hi := h'.deleted id <| h.deleted id hi

end Rely

-- What is committed has its files, and a thread only adds what it drew.
structure Committable (i : ι) (s : State ι) (d : Database) : Prop where
  linked : d.Linked
  rows   : ∀ row ∈ d.rows, row ∈ s.db.rows ∨
    Pending i row.artifact_id s ∧ Stored sha256 s row

-- What a step of a thread owes to every other.
def Moves (i : ι) (s t : State ι) : Prop :=
  Invariant sha256 t ∧ ∀ j, j ≠ i → Rely j s t

namespace Moves

variable {sha256} {i : ι} {s : State ι}

theorem refl (hs : Invariant sha256 s) : Moves sha256 i s s :=
  ⟨hs, fun _ _ => .refl⟩

theorem trans {t u : State ι} (h : Moves sha256 i s t) (h' : Moves sha256 i t u) :
    Moves sha256 i s u :=
  ⟨h'.left, fun j hj => (h.right j hj).trans <| h'.right j hj⟩

-- The files of the artifacts are not touched.
theorem intact_of_files {t : State ι} (hs : Invariant sha256 s) (hd : t.db = s.db)
    (hg : t.drawn = s.drawn) (hx : t.deleted = s.deleted)
    (hf : ∀ row ∈ s.db.rows, t.read (final row.id) = s.read (final row.id)) :
    Invariant sha256 t where
  linked  := hd ▸ hs.linked
  stored row hr := by
    obtain ⟨data, h, hrow⟩ := hs.stored row (hd ▸ hr)
    exact ⟨data, (hf row (hd ▸ hr)).trans h, hrow⟩
  hex     := hg ▸ hs.hex
  unique  := hg ▸ hs.unique
  drawn   := hg ▸ hd ▸ hs.drawn
  retired := hg ▸ hd ▸ hx ▸ hs.retired

theorem tx {tx : Option (Tx ι)} (hs : Invariant sha256 s) (ho : s.owner = none ∨ s.owner = some i)
    (ht : ∀ x ∈ tx, x.owner = i) : Moves sha256 i s { s with tx } := by
  refine ⟨intact_of_files hs rfl rfl rfl fun _ _ => rfl, fun j hj => ?_⟩
  have hne : s.owner ≠ some j := by
    rcases ho with h | h <;> rw [h] <;> simp [Ne.symm hj]
  exact {
    held h      := absurd h hne
    free _ h    := by
      obtain ⟨x, hx, rfl⟩ := Option.map_eq_some_iff.mp h
      exact hj (ht x hx)
    pending _ h := h.of_rows rfl (fun _ h => h) rfl
    file h      := absurd h hne
    stage h     := absurd h hne
    deleted _ h := h
  }

theorem uuid4 {a : String} (hs : Invariant sha256 s) (hh : hex32 a)
    (hf : ∀ j, (j, a) ∉ s.drawn) : Moves sha256 i s { s with drawn := s.drawn ++ [(i, a)] } := by
  refine ⟨?_, fun j hj => ?_⟩
  · exact {
      linked  := hs.linked
      stored  := hs.stored
      hex d hd := by
        rcases List.mem_append.mp hd with hd | hd
        · exact hs.hex d hd
        · obtain rfl := List.mem_singleton.mp hd
          exact hh
      unique j k b hj hk := by
        simp only [List.mem_append, List.mem_singleton, Prod.mk.injEq] at hj hk
        rcases hj with hj | ⟨rfl, rfl⟩ <;> rcases hk with hk | ⟨rfl, hb⟩
        · exact hs.unique j k b hj hk
        · exact absurd (hb ▸ hj) <| hf j
        · exact absurd hk <| hf k
        · rfl
      drawn row hr := (hs.drawn row hr).imp fun _ => List.mem_append_left _
      retired id hi := (hs.retired id hi).imp_left <| Exists.imp fun _ => List.mem_append_left _
    }
  · exact {
      held _ := ⟨rfl, rfl⟩
      free h := h
      pending _ h := h.of_rows rfl (fun _ => List.mem_append_left _) rfl
      file _ _ _ _ := rfl
      stage _ _ _  := .inl rfl
      deleted _ h  := h
    }

theorem commit {d : Database} (hs : Invariant sha256 s) (ht : s.tx = some ⟨i, d⟩)
    (hc : Committable sha256 i s d) : Moves sha256 i s s.commit := by
  have hcommit : s.commit = { s with
      db      := d
      tx      := none
      deleted := s.deleted ++ s.db.tables.artifacts.filter (· ∉ d.tables.artifacts) } := by
    simp [State.commit, ht]
  have hids : ∀ id, id ∈ d.tables.artifacts ↔ ∃ row ∈ d.rows, row.id = id := by
    intro id
    rw [d.ready]
    exact List.mem_map
  have hdropped : ∀ id ∈ s.db.tables.artifacts.filter (· ∉ d.tables.artifacts),
      (∃ row ∈ s.db.rows, row.id = id) ∧ ∀ row ∈ d.rows, row.id ≠ id := by
    intro id h
    obtain ⟨h, hn⟩ := List.mem_filter.mp h
    rw [s.db.ready] at h
    refine ⟨List.mem_map.mp h, fun row hr he => ?_⟩
    simp only [decide_eq_true_eq, hids] at hn
    exact hn ⟨row, hr, he⟩
  have ho : s.owner = some i := by
    simp [State.owner, ht]
  rw [hcommit]
  refine ⟨?_, fun j hj => ?_⟩
  · exact {
      linked := hc.linked
      stored row hr := (hc.rows row hr).elim (hs.stored row) And.right
      hex    := hs.hex
      unique := hs.unique
      drawn row hr := (hc.rows row hr).elim (hs.drawn row) fun h => ⟨i, h.left.drawn⟩
      retired id hi := by
        rcases List.mem_append.mp hi with hi | hi
        · refine ⟨(hs.retired id hi).left, fun row hr he => ?_⟩
          rcases hc.rows row hr with hold | ⟨hnew, -⟩
          · exact (hs.retired id hi).right row hold he
          · exact hnew.deleted id hi <| (congrArg Prod.snd he).symm
        · obtain ⟨⟨row, hr, rfl⟩, hn⟩ := hdropped id hi
          exact ⟨hs.drawn row hr, hn⟩
    }
  · have hne : s.owner ≠ some j := by
      rw [ho]
      simp [Ne.symm hj]
    exact {
      held h      := absurd h hne
      free _ h    := by cases h
      pending a h := {
        drawn   := h.drawn
        no_row row hr he := by
          rcases hc.rows row hr with hold | ⟨hnew, -⟩
          · exact h.no_row row hold he
          · exact hj <| hs.unique _ _ _ (he ▸ h.drawn) hnew.drawn
        deleted id hi he := by
          rcases List.mem_append.mp hi with hi | hi
          · exact h.deleted id hi he
          · obtain ⟨⟨row, hr, rfl⟩, -⟩ := hdropped id hi
            exact h.no_row row hr he
      }
      file h      := absurd h hne
      stage h     := absurd h hne
      deleted _ h := List.mem_append_left _ h
    }

-- A file changes that no row names.
theorem file {t : State ι} {p : Path} (hs : Invariant sha256 s) (hd : t.db = s.db)
    (htx : t.tx = s.tx) (hg : t.drawn = s.drawn) (hx : t.deleted = s.deleted)
    (hf : ∀ q, q ≠ p → t.read q = s.read q) (hp : ∀ row ∈ s.db.rows, final row.id ≠ p)
    (ho : s.owner = some i ∨ t.read p = none ∧ ∀ j, j ≠ i → ∀ w a, Pending j a s → final (w, a) ≠ p) :
    Moves sha256 i s t := by
  refine ⟨intact_of_files hs hd hg hx fun row hr => hf _ (hp row hr), fun j hj => ?_⟩
  have hne : s.owner = some i → s.owner ≠ some j := by
    intro h
    rw [h]
    simp [Ne.symm hj]
  exact {
    held _      := ⟨htx, hd⟩
    free h      := by
      unfold State.owner
      rwa [htx]
    pending _ h := h.of_rows hd (hg ▸ fun _ h => h) hx
    file h w a hpend := by
      rcases ho with ho | ⟨-, ho⟩
      · exact absurd h (hne ho)
      · exact hf _ <| ho j hj w a hpend
    stage h q hq := by
      rcases ho with ho | ⟨hn, -⟩
      · exact absurd h (hne ho)
      · by_cases hqp : q = p
        · exact .inr (hqp ▸ hn)
        · exact .inl <| hf q hqp
    deleted _ h := hx ▸ h
  }

end Moves

end Invariant

section Assertions

variable {ι : Type} {sha256 : Bytes → String} {i : ι} {s t : State ι} {path : Path} {data : Bytes}

-- What holds of a state holds whatever the others do.
def Stable (i : ι) (P : State ι → Prop) : Prop :=
  ∀ s t, Rely i s t → P s → P t

-- The thread has a transaction in which it wrote nothing yet.
def Holds (i : ι) (s : State ι) : Prop :=
  s.tx = some ⟨i, s.db⟩

theorem owner_of_tx {d : Database} (h : s.tx = some ⟨i, d⟩) : s.owner = some i := by
  simp [State.owner, h]

theorem Holds.stable : Stable i (Holds i) := by
  intro s t hr hs
  obtain ⟨htx, hdb⟩ := hr.held <| owner_of_tx hs
  rw [Holds, htx, hdb]
  exact hs

theorem stable_owned : Stable i fun s => s.owner = some i :=
  fun _ _ hr hs => hr.owner hs

theorem stable_pending {a : String} : Stable i (Pending i a) :=
  fun _ _ hr hs => hr.pending a hs

theorem Stable.and {P Q : State ι → Prop} (hp : Stable i P) (hq : Stable i Q) :
    Stable i fun s => P s ∧ Q s :=
  fun s t hr hs => ⟨hp s t hr hs.left, hq s t hr hs.right⟩

-- A transaction that is ready to be committed.
def Prepared (sha256 : Bytes → String) (i : ι) (s : State ι) : Prop :=
  ∃ d, s.tx = some ⟨i, d⟩ ∧ Committable sha256 i s d

theorem stored_of_rely {row : ArtifactRecord} (ho : s.owner = some i)
    (hp : Pending i row.artifact_id s) (hr : Rely i s t) (h : Stored sha256 s row) :
    Stored sha256 t row := by
  obtain ⟨data, hd, hrow⟩ := h
  exact ⟨data, (hr.file ho _ _ hp).trans hd, hrow⟩

theorem Prepared.stable : Stable i (Prepared sha256 i) := by
  intro s t hr ⟨d, htx, hc⟩
  obtain ⟨htx', hdb⟩ := hr.held <| owner_of_tx htx
  refine ⟨d, htx'.trans htx, hc.linked, fun row hrow => ?_⟩
  rw [hdb]
  refine (hc.rows row hrow).imp_right fun ⟨hp, hf⟩ => ?_
  exact ⟨hr.pending _ hp, stored_of_rely (owner_of_tx htx) hp hr hf⟩

theorem Holds.prepared (hs : Invariant sha256 s) (h : Holds i s) : Prepared sha256 i s :=
  ⟨s.db, h, hs.linked, fun _ => .inl⟩

theorem stable_free : Stable i fun s => s.owner ≠ some i :=
  fun _ _ hr hs => hr.free hs

-- The thread publishes an artifact under an id it drew.
def Publishing (i : ι) (a : String) (s : State ι) : Prop :=
  Holds i s ∧ Pending i a s

theorem Publishing.stable {a : String} : Stable i (Publishing i a) :=
  Holds.stable.and stable_pending

theorem Publishing.owner {a : String} (h : Publishing i a s) : s.owner = some i :=
  owner_of_tx h.left

-- How the block ends when it raises.
def Failing (i : ι) (a : String) (s : State ι) : Prop :=
  s.owner = some i ∧ Pending i a s

theorem Failing.stable {a : String} : Stable i (Failing i a) :=
  stable_owned.and stable_pending

theorem Publishing.failing {a : String} (h : Publishing i a s) : Failing i a s :=
  ⟨h.owner, h.right⟩

-- The staged file is there as it was written, unless another thread removed it.
def Staging (i : ι) (a : String) (path : Path) (data : Bytes) (s : State ι) : Prop :=
  Publishing i a s ∧ (s.read path = some data ∨ s.read path = none)

theorem Staging.stable {a : String} (hp : Stage path) : Stable i (Staging i a path data) := by
  intro s t hr ⟨hs, hd⟩
  refine ⟨Publishing.stable s t hr hs, ?_⟩
  rcases hr.stage hs.owner path hp with h | h
  · exact h ▸ hd
  · exact .inr h

theorem final_ne_stage {row : ArtifactRecord} {p : Path} (hs : Invariant sha256 s)
    (hr : row ∈ s.db.rows) (hp : Stage p) : final row.id ≠ p := by
  rintro rfl
  obtain ⟨j, hd⟩ := hs.drawn row hr
  obtain ⟨name, hn⟩ := hp
  exact not_hex32_of_stage hn <| hs.hex _ hd

theorem pending_ne_stage {w a : String} {p : Path} (hs : Invariant sha256 s) (h : Pending i a s)
    (hp : Stage p) : final (w, a) ≠ p := by
  rintro rfl
  obtain ⟨name, hn⟩ := hp
  exact not_hex32_of_stage hn <| hs.hex _ h.drawn

theorem Pending.ne_final {w a : String} {row : ArtifactRecord} (h : Pending i a s)
    (hr : row ∈ s.db.rows) : final row.id ≠ final (w, a) :=
  fun he => h.no_row row hr <| congrArg Path.name he

namespace Moves

variable {p : Path}

theorem write {data : Bytes} (hs : Invariant sha256 s) (ho : s.owner = some i) (hp : Stage p) :
    Moves sha256 i s (s.write p data) := by
  refine .file (p := p) hs rfl rfl rfl rfl (fun q hq => ?_) (fun row hr => ?_) (.inl ho)
  · rw [State.read_write, if_neg (Ne.symm hq)]
  · exact final_ne_stage hs hr hp

theorem unlink (hs : Invariant sha256 s) (hp : ∀ row ∈ s.db.rows, final row.id ≠ p)
    (ho : s.owner = some i ∨ ∀ j, j ≠ i → ∀ w a, Pending j a s → final (w, a) ≠ p) :
    Moves sha256 i s (s.unlink p) := by
  refine .file (p := p) hs rfl rfl rfl rfl (fun q hq => ?_) hp <| ho.imp_right fun h => ⟨?_, h⟩
  · rw [State.read_unlink, if_neg hq]
  · rw [State.read_unlink, if_pos rfl]

theorem replace {w a : String} {t : State ι} (hs : Invariant sha256 s) (ho : s.owner = some i)
    (hp : Stage p) (ha : Pending i a s) (h : s.replace p (final (w, a)) = (.ok (), t)) :
    Moves sha256 i s t ∧ t.tx = s.tx ∧ t.db = s.db ∧ Pending i a t ∧
      t.read (final (w, a)) = s.read p := by
  obtain ⟨data, hd, hread⟩ := State.read_replace h
  have hfields : t.db = s.db ∧ t.tx = s.tx ∧ t.drawn = s.drawn ∧ t.deleted = s.deleted := by
    unfold State.replace at h
    split at h
    case h_1 => cases h
    case h_2 =>
      obtain ⟨-, rfl⟩ := Prod.mk.inj h
      exact ⟨rfl, rfl, rfl, rfl⟩
  obtain ⟨hdb, htx, hdrawn, hdeleted⟩ := hfields
  have hfinal : t.read (final (w, a)) = some data := by
    rw [hread]
    exact if_pos rfl
  -- The file leaves its old name before it has its new one.
  have hu : Moves sha256 i s (s.unlink p) :=
    .unlink hs (fun row hr => final_ne_stage hs hr hp) (.inl ho)
  have ht : Moves sha256 i (s.unlink p) t := by
    refine .file (p := final (w, a)) hu.left hdb htx hdrawn hdeleted (fun q hq => ?_)
      (fun row hr => ha.ne_final hr) (.inl ho)
    rw [hread, State.read_unlink]
    exact if_neg (Ne.symm hq)
  exact ⟨hu.trans ht, htx, hdb, ha.of_rows hdb (hdrawn ▸ fun _ h => h) hdeleted,
    hfinal.trans hd.symm⟩

-- What a thread does within its transaction.
theorem within {d d' : Database} (hs : Invariant sha256 s) (h : s.tx = some ⟨i, d⟩) :
    Moves sha256 i s { s with tx := some ⟨i, d'⟩ } :=
  .tx hs (.inr <| owner_of_tx h) fun x hx => by
    obtain rfl := Option.some.inj hx
    rfl

theorem committable_insert {record : ArtifactRecord} {d : Database} (hs : Invariant sha256 s)
    (h : s.db.insert_artifact record = some d) (hp : Pending i record.artifact_id s)
    (hf : Stored sha256 s record) : Committable sha256 i s d := by
  obtain ⟨rows, hi, rfl⟩ := Option.map_eq_some_iff.mp h
  have hrows : ∀ row, row ∈ rows ↔ row ∈ s.db.rows ∨ row = record := by
    simp [Table.mem_rows, (Table.insert_eq_some_iff.mp hi).right]
  refine ⟨fun r hr => ?_, fun row hrow => ?_⟩
  · obtain ⟨row, hrow, hid⟩ := hs.linked r hr
    exact ⟨row, (hrows row).mpr <| .inl hrow, hid⟩
  · refine ((hrows row).mp hrow).imp_right ?_
    rintro rfl
    exact ⟨hp, hf⟩

end Moves

end Assertions

end Artifacts
