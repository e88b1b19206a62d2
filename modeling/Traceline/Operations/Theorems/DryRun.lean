import Traceline.Operations.Theorems.Retention

namespace Operations

open Artifacts (File Path final hex32)
open Versions (Actor)

section Previews

variable {ι : Type} {i : ι} {actor : Actor}

-- The files that are no artifact's stay as they are.
def Spared (s t : State ι) : Prop :=
  ∀ q : File → Bool, (∀ f, hex32 f.path.name → f.path.directory = .artifacts → q f = false) →
    t.store.files.rows.filter q = s.store.files.rows.filter q

-- What deleting artifacts one after the other answers, and what it leaves alone.
structure Counted (s : State ι) (workspace_id : String) (ids : List String) (r : Except Error ℕ)
    (t : State ι) : Prop where
  stopped : (∃ x ∈ ids, Stops s.store (workspace_id, x)) → ∃ e, r = .error e
  counted : (∀ x ∈ ids, ¬Stops s.store (workspace_id, x)) → ∃ n, r = .ok n ∧ n ≤ ids.length ∧
    (n = ids.length ↔ ∀ x ∈ ids, Deletable s.store (workspace_id, x))
  exports : t.exports = s.exports
  files   : Spared s t

theorem counted_delete_previews (h : Artifacts._require actor true actor.workspace_id = .ok ())
    {ids : List String} (hsorted : ids.Pairwise (· < ·)) (s : State ι) :
    Counted s actor.workspace_id ids (s.delete_previews i actor ids).1
      (s.delete_previews i actor ids).2 := by
  induction ids generalizing s with
  | nil           =>
    exact ⟨fun h => absurd h.choose_spec.left List.not_mem_nil,
      fun _ => ⟨0, rfl, le_rfl, iff_of_true rfl <| List.forall_mem_nil _⟩, rfl, fun _ _ => rfl⟩
  | cons x ids ih =>
    obtain ⟨hx, hsorted⟩ := List.pairwise_cons.mp hsorted
    obtain ⟨r, t, heval, hd, ha⟩ := delete_unreferenced_eval (s := s.store) (i := i) (x := x) h
    have hone : s.delete_unreferenced i actor x = (r.mapError .artifact, { s with store := t }) := by
      unfold State.delete_unreferenced
      rw [heval]
    have hfiles : Spared s { s with store := t } :=
      fun q hq => ha.files q fun f hh hf => hq f (by rw [hf]; exact hh) (by rw [hf]; rfl)
    unfold State.delete_previews
    rw [hone]
    cases r with
    | error e =>
      refine ⟨fun _ => ⟨_, rfl⟩, fun hnone => ?_, rfl, hfiles⟩
      exact absurd (hd.stops.mpr ⟨e, rfl⟩) <| hnone x <| .head _
    | ok b    =>
      have hc := ih hsorted { s with store := t }
      have hx' : ¬Stops s.store (actor.workspace_id, x) := fun hs => by
        obtain ⟨e, he⟩ := hd.stops.mp hs
        cases he
      have hdel : ∀ y ∈ ids, Deletable t (actor.workspace_id, y) ↔
          Deletable s.store (actor.workspace_id, y) := fun y hy =>
        deletable_iff hd.references <| hd.other _ fun he =>
          (hx y hy).ne' (congrArg Prod.snd he)
      have hstops : ∀ y ∈ ids, Stops t (actor.workspace_id, y) ↔
          Stops s.store (actor.workspace_id, y) := fun y hy => by
        rw [Stops, Stops, hdel y hy]
      refine ⟨fun hstop => ?_, fun hnone => ?_, hc.exports, fun q hq => ?_⟩
      · obtain ⟨y, hy, hs⟩ := hstop
        have hy : y ∈ ids := (List.mem_cons.mp hy).resolve_left fun he => hx' (he ▸ hs)
        obtain ⟨e, he⟩ := hc.stopped ⟨y, hy, (hstops y hy).mpr hs⟩
        exact ⟨e, by dsimp only [Except.mapError]; rw [he]; rfl⟩
      · obtain ⟨n, hn, hle, hall⟩ := hc.counted fun y hy =>
          mt (hstops y hy).mp <| hnone y <| .tail _ hy
        refine ⟨n + b.toNat, by dsimp only [Except.mapError]; rw [hn]; rfl, ?_, ?_⟩
        · rw [List.length_cons]
          exact Nat.add_le_add hle <| Bool.toNat_le b
        · have hreturns := ha.returns b rfl
          have hrest : (∀ y ∈ ids, Deletable t (actor.workspace_id, y)) ↔
              ∀ y ∈ ids, Deletable s.store (actor.workspace_id, y) :=
            forall₂_congr hdel
          rw [List.forall_mem_cons, ← hreturns, ← hrest, ← hall, List.length_cons]
          cases b with
          | false =>
            have hne : n + false.toNat ≠ ids.length + 1 := fun he => by
              rw [Bool.toNat_false] at he
              omega
            exact iff_of_false hne fun hb => Bool.false_ne_true hb.left
          | true  =>
            rw [Bool.toNat_true, Nat.add_left_inj]
            exact (and_iff_right rfl).symm
      · exact (hc.files q hq).trans <| hfiles q hq

end Previews

section Files

variable {ι : Type} {s : State ι}

theorem unlink_uploads_files {paths : List Path} :
    (s.unlink_uploads paths).2.store.files.rows =
        s.store.files.rows.filter (fun f => f.path ∉ paths) ∧
      (s.unlink_uploads paths).2.exports = s.exports := by
  induction paths generalizing s with
  | nil             => exact ⟨(List.filter_eq_self.mpr fun _ _ => by simp).symm, rfl⟩
  | cons path paths ih =>
    obtain ⟨hrows, hexports⟩ := ih (s := { s with store := s.store.unlink path })
    refine ⟨hrows.trans ?_, hexports⟩
    rw [Artifacts.State.unlink, Table.delete, List.filter_filter]
    refine List.filter_congr fun f _ => ?_
    simp only [List.mem_cons, not_or, Bool.decide_and, decide_not]
    exact Bool.and_comm _ _

-- Every path that is there and comes once is counted.
theorem unlink_uploads_count {paths : List Path} (hnodup : paths.Nodup)
    (h : ∀ p ∈ paths, (s.store.read p).isSome) : (s.unlink_uploads paths).1 = paths.length := by
  induction paths generalizing s with
  | nil             => rfl
  | cons path paths ih =>
    obtain ⟨hpath, hnodup⟩ := List.nodup_cons.mp hnodup
    have hrest := ih (s := { s with store := s.store.unlink path }) hnodup fun p hp => by
      rw [Artifacts.State.read_unlink, if_neg fun he : p = path => hpath <| he ▸ hp]
      exact h p <| .tail _ hp
    unfold State.unlink_uploads
    dsimp only
    rw [hrest, h path <| .head _]
    rfl

theorem read_isSome_of_mem {f : File} (h : f ∈ s.store.files) : (s.store.read f.path).isSome := by
  rw [Artifacts.State.read, Table.find_key h]
  rfl

theorem nodup_old_uploads {workspace_id : String} {cutoff : ℚ} :
    (s._old_uploads workspace_id cutoff).Nodup :=
  s.store.files.nodup.sublist <| List.filter_sublist.map _

end Files

section Removed

variable {ι : Type} (s t : State ι)

def removed_exports : ℕ :=
  s.exports.rows.countP fun e => (t.exports.find e.key).isNone

def removed_artifacts : ℕ :=
  s.store.db.rows.rows.countP fun a => (t.store.db.rows.find a.id).isNone

def removed_files (p : File → Bool) : ℕ :=
  s.store.files.rows.countP fun f => p f && (t.store.files.find f.path).isNone

def upload (f : File) : Bool :=
  f.path.directory = .quarantine

def staging (f : File) : Bool :=
  f.path.directory = .artifacts && Artifacts.suffix f.path.name = ".stage"

-- What the dry run reports is what the real run reports and removes.
structure Predicts (dry real : Report) : Prop where
  counts    : { real with state := dry.state } = dry
  exports   : removed_exports s t = dry.expired_exports
  artifacts : removed_artifacts s t = dry.preview_artifacts
  uploads   : removed_files s t upload = dry.abandoned_uploads
  staging   : removed_files s t staging = dry.staging_files

variable {s t}

-- The rows that a list of ids has removed are as many as the ids.
theorem removed_artifacts_eq {workspace_id : String} {ids : List String} (hnodup : ids.Nodup)
    (hids : ∀ x ∈ ids, (s.store.db.rows.find (workspace_id, x)).isSome)
    (hgone : ∀ x ∈ ids, t.store.db.rows.find (workspace_id, x) = none)
    (hother : ∀ w x, ¬(w = workspace_id ∧ x ∈ ids) →
      t.store.db.rows.find (w, x) = s.store.db.rows.find (w, x)) :
    removed_artifacts s t = ids.length := by
  have hperm : ((s.store.db.rows.rows.filter fun a => (t.store.db.rows.find a.id).isNone).map
      Artifacts.ArtifactRecord.id).Perm (ids.map fun x => (workspace_id, x)) := by
    refine (List.perm_ext_iff_of_nodup ?_ ?_).mpr fun id => ?_
    · exact s.store.db.rows.nodup.sublist <| List.filter_sublist.map _
    · exact hnodup.map fun _ _ h => (Prod.mk.inj h).right
    · rw [List.mem_map, List.mem_map]
      constructor
      · intro ⟨a, ha, hid⟩
        obtain ⟨ha, hnone⟩ := List.mem_filter.mp ha
        obtain ⟨w, x⟩ := id
        by_contra hnot
        have hsame := hother w x fun ⟨hw, hx⟩ => hnot ⟨x, hx, by rw [hw]⟩
        rw [hid, hsame, ← hid, Table.find_key ha] at hnone
        cases hnone
      · intro ⟨x, hx, hid⟩
        obtain ⟨a, ha⟩ := Option.isSome_iff_exists.mp <| hids x hx
        obtain ⟨hmem, hkey⟩ := Table.find_eq_some_iff.mp ha
        refine ⟨a, List.mem_filter.mpr ⟨hmem, ?_⟩, hkey.trans hid⟩
        rw [hkey, hgone x hx]
        rfl
  have hlength := hperm.length_eq
  rwa [List.length_map, List.length_map, ← List.countP_eq_length_filter] at hlength

theorem removed_exports_eq {workspace_id cutoff : String}
    (h : t.exports = (s.delete_export_snapshots_before workspace_id cutoff).exports) :
    removed_exports s t = (s.expired_exports workspace_id cutoff).length := by
  rw [removed_exports, State.expired_exports, ← List.countP_eq_length_filter, h]
  refine List.countP_congr fun e he => ?_
  rw [Option.isNone_iff_eq_none, Table.find_eq_none_iff]
  constructor
  · intro hnone
    by_contra hkept
    refine hnone e (Table.mem_delete.mpr ⟨he, ?_⟩) rfl
    exact eq_false_of_ne_true hkept
  · intro hexpired e' he' hkey
    obtain ⟨he', hkept⟩ := Table.mem_delete.mp he'
    rw [Table.eq_of_key_eq he' he hkey, hexpired] at hkept
    cases hkept

-- The files of a kind that are removed, where the ones that stay are known.
theorem removed_files_eq {p q : File → Bool} (hp : ∀ f f', f.path = f'.path → p f = p f')
    (h : t.store.files.rows.filter p = s.store.files.rows.filter fun f => p f && !q f) :
    removed_files s t p = s.store.files.rows.countP fun f => p f && q f := by
  refine List.countP_congr fun f hf => ?_
  rw [Bool.and_eq_true, Bool.and_eq_true]
  refine and_congr_right fun hpf => ?_
  rw [Option.isNone_iff_eq_none, Table.find_eq_none_iff]
  constructor
  · intro hnone
    by_contra hq
    have hmem : f ∈ s.store.files.rows.filter fun f => p f && !q f :=
      List.mem_filter.mpr ⟨hf, by rw [hpf, eq_false_of_ne_true hq]; rfl⟩
    rw [← h] at hmem
    exact hnone f (List.mem_filter.mp hmem).left rfl
  · intro hq f' hf' hkey
    have hmem : f' ∈ t.store.files.rows.filter p :=
      List.mem_filter.mpr ⟨hf', (hp f' f hkey).trans hpf⟩
    rw [h] at hmem
    obtain ⟨hmem, hkept⟩ := List.mem_filter.mp hmem
    rw [Table.eq_of_key_eq hmem hf hkey, hpf, hq] at hkept
    cases hkept

end Removed

section Retention

variable {ι τ : Type} {py : Python} {loads : String → Option Json} {clock : Clock τ}
variable {s : State ι} {i : ι} {r : Request τ}

-- Both runs are refused and leave everything there, or the dry run predicts the real one.
def Predicted (py : Python) (loads : String → Option Json) (clock : Clock τ) (s : State ι) (i : ι)
    (r : Request τ) : Prop :=
  let dry := s.enforce_retention py loads clock i { r with dry_run := true }
  let real := s.enforce_retention py loads clock i { r with dry_run := false }
  dry.2 = s ∧
    ((∃ e, dry.1 = .error e ∧ real.1 = .error e ∧ real.2 = s) ∨
      ∃ d c, dry.1 = .ok d ∧ real.1 = .ok c ∧ Predicts s real.2 d c)

-- Each artifact that an expired revision names can be deleted: its id is 32 hex digits, it has a
-- row, no version refers to it, and the workspace has a directory for its file.
def Unhindered (py : Python) (loads : String → Option Json) (clock : Clock τ) (s : State ι)
    (r : Request τ) : Prop :=
  (∃ c, r.cutoffs clock = .ok c) → _workspace_dir py r.actor.workspace_id = .ok () →
    ∀ x, Outdated loads clock s r x → Deletable s.store (r.actor.workspace_id, x) ∧
      ¬Stops s.store (r.actor.workspace_id, x)

-- The candidates of a call that is not refused.
theorem candidates_cases : (∃ e, s.candidates py loads clock r = .error e ∧
      ((∃ c, r.cutoffs clock = .ok c) → _workspace_dir py r.actor.workspace_id ≠ .ok ())) ∨
    ∃ d, s.candidates py loads clock r = .ok d ∧ r.cutoffs clock = .ok d.cutoffs ∧
      _workspace_dir py r.actor.workspace_id = .ok () ∧
      d.preview_ids =
        s.preview_artifact_ids_before loads r.actor.workspace_id d.cutoffs.preview_cutoff ∧
      d.upload_paths = s._old_uploads r.actor.workspace_id d.cutoffs.upload_cutoff ∧
      d.report = {
        state             := "dry_run"
        expired_exports   :=
          (s.expired_exports r.actor.workspace_id d.cutoffs.export_cutoff).length
        preview_artifacts := d.preview_ids.length
        abandoned_uploads := d.upload_paths.length
        staging_files     := s._old_staging_files r.actor.workspace_id d.cutoffs.upload_cutoff } := by
  unfold State.candidates
  cases hc : r.cutoffs clock with
  | error e => exact .inl ⟨e, rfl, fun ⟨_, h⟩ => by cases h⟩
  | ok c    =>
    simp only [bind, Except.bind]
    cases hw : _workspace_dir py r.actor.workspace_id with
    | error e => exact .inl ⟨e, rfl, fun _ h => by cases h⟩
    | ok _    =>
      refine .inr ⟨_, rfl, rfl, rfl, ?_, rfl, rfl⟩
      exact filter_protected

theorem upload_congr (f f' : File) (h : f.path = f'.path) : upload f = upload f' := by
  rw [upload, upload, h]

theorem staging_congr (f f' : File) (h : f.path = f'.path) : staging f = staging f' := by
  rw [staging, staging, h]

theorem staging_of_old {workspace_id : String} {cutoff : ℚ} {f : File}
    (h : old_staging workspace_id cutoff f) : staging f := by
  simp only [old_staging, Bool.and_eq_true, decide_eq_true_eq] at h
  rw [staging, h.left.left.left, h.left.right]
  rfl

theorem upload_of_mem {workspace_id : String} {cutoff : ℚ} {path : Path}
    (h : path ∈ s._old_uploads workspace_id cutoff) : path.directory = .quarantine := by
  obtain ⟨f, hf, rfl⟩ := List.mem_map.mp h
  have hf := (List.mem_filter.mp hf).right
  simp only [Bool.and_eq_true, decide_eq_true_eq] at hf
  exact hf.left.left.left

section Complete

variable {actor : Actor} {d : Candidates} {v : State ι} (hc : Spared s v)

-- What a real run leaves once the artifacts are deleted.
def State.swept (v : State ι) (workspace_id : String) (d : Candidates) : State ι :=
  (v.unlink_uploads d.upload_paths).2._delete_old_staging workspace_id d.cutoffs.upload_cutoff

theorem swept_files : (v.swept actor.workspace_id d).store.files.rows = v.store.files.rows.filter
    fun f => !old_staging actor.workspace_id d.cutoffs.upload_cutoff f && f.path ∉ d.upload_paths := by
  rw [State.swept, State._delete_old_staging, Table.delete]
  dsimp only
  rw [unlink_uploads_files.left, List.filter_filter]

include hc

theorem filter_swept {p : File → Bool}
    (hp : ∀ f, hex32 f.path.name → f.path.directory = .artifacts → p f = false) :
    (v.swept actor.workspace_id d).store.files.rows.filter p = s.store.files.rows.filter fun f =>
      p f && (!old_staging actor.workspace_id d.cutoffs.upload_cutoff f &&
        f.path ∉ d.upload_paths) := by
  rw [swept_files, List.filter_filter]
  exact hc _ fun f hh hd => by rw [hp f hh hd, Bool.false_and]

theorem removed_uploads
    (hpaths : d.upload_paths = s._old_uploads actor.workspace_id d.cutoffs.upload_cutoff) :
    removed_files s (v.swept actor.workspace_id d) upload = d.upload_paths.length := by
  have hartifacts : ∀ f : File, f.path.directory = .artifacts → upload f = false := fun f hf => by
    rw [upload, hf]
    rfl
  have hfiles : (v.swept actor.workspace_id d).store.files.rows.filter upload =
      s.store.files.rows.filter fun f => upload f && !decide (f.path ∈ d.upload_paths) := by
    rw [filter_swept hc fun f _ => hartifacts f]
    refine List.filter_congr fun f _ => ?_
    cases hold : old_staging actor.workspace_id d.cutoffs.upload_cutoff f with
    | false => rw [Bool.not_false, Bool.true_and, decide_not]
    | true  =>
      have hdirectory := staging_of_old hold
      simp only [staging, Bool.and_eq_true, decide_eq_true_eq] at hdirectory
      rw [hartifacts f hdirectory.left, Bool.false_and, Bool.false_and]
  rw [removed_files_eq upload_congr hfiles, hpaths, State._old_uploads, List.length_map,
    ← List.countP_eq_length_filter]
  refine List.countP_congr fun f hf => ?_
  rw [Bool.and_eq_true, decide_eq_true_eq, List.mem_map]
  constructor
  · intro ⟨_, f', hf', hkey⟩
    obtain ⟨hf', hold⟩ := List.mem_filter.mp hf'
    rwa [Table.eq_of_key_eq hf' hf hkey] at hold
  · intro hold
    have hold' := hold
    simp only [Bool.and_eq_true, decide_eq_true_eq] at hold'
    exact ⟨by rw [upload, hold'.left.left.left]; rfl, f, List.mem_filter.mpr ⟨hf, hold⟩, rfl⟩

theorem removed_staging
    (hpaths : d.upload_paths = s._old_uploads actor.workspace_id d.cutoffs.upload_cutoff) :
    removed_files s (v.swept actor.workspace_id d) staging =
      s._old_staging_files actor.workspace_id d.cutoffs.upload_cutoff := by
  have hartifacts : ∀ f : File, hex32 f.path.name → f.path.directory = .artifacts →
      staging f = false := fun f hh _ => by
    rw [staging, decide_eq_false (suffix_of_hex32 hh), Bool.and_false]
  have hfiles : (v.swept actor.workspace_id d).store.files.rows.filter staging =
      s.store.files.rows.filter fun f =>
        staging f && !old_staging actor.workspace_id d.cutoffs.upload_cutoff f := by
    rw [filter_swept hc hartifacts]
    refine List.filter_congr fun f _ => ?_
    cases hstaging : staging f with
    | false => rw [Bool.false_and, Bool.false_and]
    | true  =>
      have hpath : f.path ∉ d.upload_paths := fun hmem => by
        simp only [staging, Bool.and_eq_true, decide_eq_true_eq] at hstaging
        rw [upload_of_mem (hpaths ▸ hmem)] at hstaging
        cases hstaging.left
      rw [decide_eq_true hpath, Bool.and_true]
  rw [removed_files_eq staging_congr hfiles, State._old_staging_files]
  refine List.countP_congr fun f _ => ?_
  rw [Bool.and_eq_true]
  exact and_iff_right_of_imp staging_of_old

theorem reported_staging
    (hpaths : d.upload_paths = s._old_uploads actor.workspace_id d.cutoffs.upload_cutoff) :
    (v.unlink_uploads d.upload_paths).2._old_staging_files actor.workspace_id
        d.cutoffs.upload_cutoff =
      s._old_staging_files actor.workspace_id d.cutoffs.upload_cutoff := by
  have hsame := hc (old_staging actor.workspace_id d.cutoffs.upload_cutoff) fun f hh _ => by
    cases hold : old_staging actor.workspace_id d.cutoffs.upload_cutoff f with
    | false => rfl
    | true  =>
      have hstaging := staging_of_old hold
      simp only [staging, Bool.and_eq_true, decide_eq_true_eq] at hstaging
      exact absurd hstaging.right <| suffix_of_hex32 hh
  rw [State._old_staging_files, unlink_uploads_files.left, List.countP_filter,
    State._old_staging_files, List.countP_eq_length_filter, List.countP_eq_length_filter, ← hsame]
  refine congrArg List.length <| List.filter_congr fun f _ => ?_
  cases hold : old_staging actor.workspace_id d.cutoffs.upload_cutoff f with
  | false => rw [Bool.false_and]
  | true  =>
    have hpath : f.path ∉ d.upload_paths := fun hmem => by
      have hstaging := staging_of_old hold
      simp only [staging, Bool.and_eq_true, decide_eq_true_eq] at hstaging
      rw [upload_of_mem (hpaths ▸ hmem)] at hstaging
      cases hstaging.left
    rw [decide_eq_true hpath, Bool.and_true]

theorem reported_uploads
    (hpaths : d.upload_paths = s._old_uploads actor.workspace_id d.cutoffs.upload_cutoff) :
    (v.unlink_uploads d.upload_paths).1 = d.upload_paths.length := by
  refine unlink_uploads_count (hpaths ▸ nodup_old_uploads) fun path hpath => ?_
  have hupload := upload_of_mem (hpaths ▸ hpath)
  rw [hpaths] at hpath
  obtain ⟨f, hf, rfl⟩ := List.mem_map.mp hpath
  have hsame := hc upload fun f _ hf => by
    rw [upload, hf]
    rfl
  have hmem : f ∈ s.store.files.rows.filter upload :=
    List.mem_filter.mpr ⟨(List.mem_filter.mp hf).left, decide_eq_true hupload⟩
  rw [← hsame] at hmem
  exact read_isSome_of_mem (List.mem_filter.mp hmem).left

end Complete

-- What the run answers and leaves once it knows its candidates.
theorem complete_cases {actor : Actor} {d : Candidates}
    (hrequire : Artifacts._require actor true actor.workspace_id = .ok ())
    (hpaths : d.upload_paths = s._old_uploads actor.workspace_id d.cutoffs.upload_cutoff)
    (hreport : d.report = {
      state             := "dry_run"
      expired_exports   := (s.expired_exports actor.workspace_id d.cutoffs.export_cutoff).length
      preview_artifacts := d.preview_ids.length
      abandoned_uploads := d.upload_paths.length
      staging_files     := s._old_staging_files actor.workspace_id d.cutoffs.upload_cutoff })
    (hsorted : (List.insertionSort (· ≤ ·) d.preview_ids).Pairwise (· < ·)) :
    (∃ c, (s.complete i actor d).1 = .ok c ∧ Predicts s (s.complete i actor d).2 d.report c) ↔
      ∀ x ∈ List.insertionSort (· ≤ ·) d.preview_ids,
        Deletable s.store (actor.workspace_id, x) ∧ ¬Stops s.store (actor.workspace_id, x) := by
  let u := s.delete_export_snapshots_before actor.workspace_id d.cutoffs.export_cutoff
  have hlength : (List.insertionSort (· ≤ ·) d.preview_ids).length = d.preview_ids.length :=
    List.length_insertionSort _ _
  generalize hids : List.insertionSort (· ≤ ·) d.preview_ids = ids at *
  have hcounted := counted_delete_previews (i := i) hrequire hsorted u
  have hpruned := (pruned_delete_previews (i := i) hrequire hsorted u).left
  unfold State.complete
  dsimp only
  rw [hids]
  cases hdel : u.delete_previews i actor ids with
  | mk result v =>
    rw [hdel] at hcounted hpruned
    cases result with
    | error e =>
      refine iff_of_false (fun ⟨_, h, _⟩ => by cases h) fun hall => ?_
      obtain ⟨n, hn, -⟩ := hcounted.counted fun x hx => (hall x hx).right
      cases hn
    | ok n    =>
      have hstops : ∀ x ∈ ids, ¬Stops s.store (actor.workspace_id, x) := fun x hx hs => by
        obtain ⟨e, he⟩ := hcounted.stopped ⟨x, hx, hs⟩
        cases he
      obtain ⟨n', hn, -, hall⟩ := hcounted.counted hstops
      obtain rfl := Except.ok.inj hn
      have hspared : Spared s v := hcounted.files
      have hdb : (v.unlink_uploads d.upload_paths).2.store.db = v.store.db :=
        (unlink_uploads_store fun p hp => upload_of_mem (hpaths ▸ hp)).right.left
      dsimp only at hpruned ⊢
      constructor
      · intro ⟨c, hc, hp⟩ x hx
        have hpreviews := congrArg Report.preview_artifacts hp.counts
        rw [← Except.ok.inj hc, hreport] at hpreviews
        exact ⟨hall.mp (hpreviews.trans hlength.symm) x hx, hstops x hx⟩
      · intro hdeletable
        have hn := hall.mpr fun x hx => (hdeletable x hx).left
        refine ⟨_, rfl, ⟨?_, ?_, ?_, ?_, ?_⟩⟩
        · dsimp only
          rw [hreport, hn, hlength, reported_uploads hspared hpaths,
            reported_staging hspared hpaths]
        · rw [hreport]
          exact removed_exports_eq <| unlink_uploads_files.right.trans hcounted.exports
        · rw [hreport]
          refine (removed_artifacts_eq ?_ (fun x hx => (hdeletable x hx).left.right) ?_ ?_).trans hlength
          · exact hsorted.imp fun h => h.ne
          · intro x hx
            have hx32 : hex32 x := not_not.mp fun hnot => hstops x hx <| .inl hnot
            have hgone := hpruned.gone x
              ⟨hx, hx32, (hdeletable x hx).left, fun y hy _ => hstops y hy⟩
            rwa [← hdb] at hgone
          · intro w x hnot
            have hsame := hpruned.other w x fun h => hnot ⟨h.left, h.right.left⟩
            have hrow := (Prod.mk.inj hsame).left
            rwa [← hdb] at hrow
        · rw [hreport]
          exact removed_uploads hspared hpaths
        · rw [hreport]
          exact removed_staging hspared hpaths

-- The dry run predicts the real one exactly where nothing stands in the way of the deletion.
theorem predicted_iff (py : Python) (loads : String → Option Json) (clock : Clock τ) (s : State ι)
    (i : ι) (r : Request τ) : Predicted py loads clock s i r ↔ Unhindered py loads clock s r := by
  unfold Predicted State.enforce_retention
  have hcandidates : ∀ b, s.candidates py loads clock { r with dry_run := b } =
      s.candidates py loads clock r := fun _ => rfl
  dsimp only
  rw [hcandidates true, hcandidates false]
  rcases @candidates_cases ι τ py loads clock s r with
    ⟨e, he, hrefused⟩ | ⟨d, hd, hcutoffs, hdir, hids, hpaths, hreport⟩
  · rw [he]
    exact iff_of_true ⟨rfl, .inl ⟨e, rfl, rfl, rfl⟩⟩ fun hc hw => absurd hw <| hrefused hc
  · rw [hd]
    obtain ⟨hmem, hsorted⟩ := candidate_ids hcutoffs hids
    have hcomplete := complete_cases (i := i) (require_of_cutoffs hcutoffs) hpaths hreport hsorted
    simp only [if_true, Bool.false_eq_true, if_false, reduceCtorEq, false_and, exists_false,
      false_or, Except.ok.injEq, true_and]
    have hanswer : (∃ d' c, d.report = d' ∧ (s.complete i r.actor d).1 = .ok c ∧
        Predicts s (s.complete i r.actor d).2 d' c) ↔ ∃ c, (s.complete i r.actor d).1 = .ok c ∧
          Predicts s (s.complete i r.actor d).2 d.report c :=
      ⟨fun ⟨_, c, heq, hc, hp⟩ => ⟨c, hc, heq ▸ hp⟩, fun ⟨c, hc, hp⟩ => ⟨_, c, rfl, hc, hp⟩⟩
    rw [hanswer, hcomplete]
    refine ⟨fun h _ _ x hx => h x <| (hmem x).mpr hx, fun h x hx => ?_⟩
    exact h ⟨_, hcutoffs⟩ hdir x <| (hmem x).mp hx

end Retention

namespace Sample

def references : Table (id : Versions.VersionArtifact → Versions.VersionArtifact) where
  rows  := [⟨"w", "v", artifact_id⟩]
  nodup := List.nodup_singleton _

-- A version refers to the artifact that the expired revision names.
def referred : State Unit where
  store   := {
    db      := ⟨rows, ⟨[], [("w", artifact_id)], .empty, .empty, references⟩, rfl⟩
    tx      := none
    files   := .empty
    clock   := 0
    drawn   := []
    deleted := []
  }
  jobs
  exports := .empty

theorem counted : ((referred.enforce_retention .ascii loads clock ()
    { request with dry_run := true }).1.map Report.preview_artifacts) = .ok 1 := by
  decide

theorem deleted : ((referred.enforce_retention .ascii loads clock ()
    { request with dry_run := false }).1.map Report.preview_artifacts) = .ok 0 := by
  decide

end Sample

-- The dry run counts an artifact that a version keeps.
theorem not_predicted : ¬ ∀ (py : Python) (loads : String → Option Json) (clock : Clock Unit)
    (s : State Unit) (i : Unit) (r : Request Unit), Predicted py loads clock s i r := by
  intro h
  have hpredicted := h .ascii Sample.loads Sample.clock Sample.referred () Sample.request
  have hcounted := Sample.counted
  have hdeleted := Sample.deleted
  rcases hpredicted.right with ⟨e, hdry, -⟩ | ⟨d, c, hdry, hreal, hp⟩
  · rw [hdry] at hcounted
    cases hcounted
  · rw [hdry] at hcounted
    rw [hreal] at hdeleted
    have hcounts := congrArg Report.preview_artifacts hp.counts
    have hd : d.preview_artifacts = 1 := Except.ok.inj hcounted
    have hc : c.preview_artifacts = 0 := Except.ok.inj hdeleted
    rw [hd] at hcounts
    exact absurd (hc.symm.trans hcounts) (by decide)

end Operations
