import Traceline.Versions.Theorems.Definitions

-- Which legacy definitions a migration takes, and when it gets through them.
namespace Versions

open Except (bind_eq_ok_iff)

variable {h : LegacyHost} {a : Answers} {actor : Actor} {s t u : LegacyState}
variable {row : CustomEval} {kind : LegacyKind} {content : Json} {m : LegacyMigration}
variable {d : CustomEval × LegacyKind} {env : ∀ q, sql.Answer q}

-- The key of what is recorded of a definition, and of the versions it is to have.
def LegacyHost.migration_key (h : LegacyHost) (actor : Actor) (d : CustomEval × LegacyKind) :
    String × String × String × String :=
  (actor.workspace_id, d.1.eval_id, d.2.name, h.source_digest <| d.2.column d.1)

def version_key (actor : Actor) (d : CustomEval × LegacyKind) : Key :=
  (actor.workspace_id, d.2.name, d.1.eval_id)

-- A definition that is read and validates.
def LegacyHost.Valid (h : LegacyHost) (d : CustomEval × LegacyKind) (content : Json) : Prop :=
  loads (d.2.column d.1).toList = some content ∧ h.validate d.2 content = none

section Property

-- The outcome of a definition that had none: a version if it is valid and the first of its kind,
-- and else a reason.
structure Decided (h : LegacyHost) (actor : Actor) (d : CustomEval × LegacyKind) (s t : LegacyState)
    (m : LegacyMigration) : Prop where
  migrated_iff : m.state = "migrated" ↔
    (∃ content, h.Valid d content) ∧ s.versions.versions_of (version_key actor d) = []
  migrated     : m.state = "migrated" → ∃ v ∈ t.versions.versions_of (version_key actor d),
    m.version_id = some v.version_id
  quarantined  : m.state ≠ "migrated" → m.state = "quarantined" ∧ m.reason.isSome ∧
    m.version_id = none

-- What a migration of some definitions has done.
structure Migrated (h : LegacyHost) (actor : Actor) (ds : List (CustomEval × LegacyKind))
    (s t : LegacyState) : Prop where
  custom_evals : t.custom_evals = s.custom_evals
  recorded     : ∀ d ∈ ds, ∃ m, t.migrations.find (h.migration_key actor d) = some m ∧
    (s.migrations.find (h.migration_key actor d) = some m ∨
      s.migrations.find (h.migration_key actor d) = none ∧ Decided h actor d s t m)
  others       : ∀ k, (∀ d ∈ ds, h.migration_key actor d ≠ k) →
    t.migrations.find k = s.migrations.find k
  versions     : ∀ k, (∀ d ∈ ds, version_key actor d ≠ k) →
    t.versions.versions_of k = s.versions.versions_of k

end Property

section Condition

-- A definition that is still to be migrated can be stored.
def Convertible (h : LegacyHost) (actor : Actor) (d : CustomEval × LegacyKind) (s : LegacyState) :
    Prop :=
  s.migrations.find (h.migration_key actor d) = none →
    s.versions.versions_of (version_key actor d) = [] →
      ∀ content, h.Valid d content → Storable content

end Condition

-- What holds of the tables: the versions of an object follow one another, and an evaluation is an
-- object that may have them.
structure Sound (s : LegacyState) : Prop where
  linear  : ∀ k, Linear k s.versions (s.versions.versions_of k)
  parents : ∀ row ∈ s.custom_evals, ⟨.custom_evals, row.workspace_id, row.eval_id⟩ ∈ s.versions.parents

-- `uuid4` yields an id that no version has.
def Fresh (a : Answers) (s : LegacyState) : Prop :=
  ∀ v ∈ s.versions.versions, v.version_id ≠ a.uuid4

section Create

theorem created_of_eval {sha256 : List (String × Json) → String} {r : Request} {v : VersionRecord}
    {s t : State} (he : (create sha256 r).eval store env s = (.ok v, t)) :
    ∃ c, r.check = .ok c ∧ Created r c s v t :=
  Prog.eval_ok_of_wp (c := .returns store fun _ _ => True) (fun _ => trivial) wp_create he

theorem perform_parents (c : Statement) (s : State) : (store.perform c s).2.parents = s.parents := by
  cases c with
  | insert_version v   =>
    change (s.insert_version v).2.parents = _
    unfold State.insert_version
    split
    · rfl
    · split
      · rfl
      · split <;> rfl
  | insert_reference r =>
    change (s.insert_reference r).2.parents = _
    unfold State.insert_reference
    split
    · rfl
    · split <;> rfl
  | _ => rfl

theorem eval_parents {α : Type} {p : Prog sql α} {s : State} :
    (p.eval store env s).2.parents = s.parents :=
  @Prog.eval_preserves sql store env α s p (fun t => t.parents = s.parents)
    (fun c t ht => (perform_parents c t).trans ht) rfl

theorem Created.linear {r : Request} {c : Checked} {s t : State} {v : VersionRecord}
    (x : Created r c s v t) (hs : ∀ k, Linear k s (s.versions_of k)) (k : Key) :
    Linear k t (t.versions_of k) := by
  rw [versions_of_created x]
  by_cases hk : r.key = k
  case pos =>
    rw [if_pos hk]
    exact ((hs k).snoc x hk).left
  case neg =>
    rw [if_neg hk, List.append_nil]
    exact (hs k).of_heads <| (x.heads k).trans <| if_neg <| Ne.symm hk

end Create

section Step

theorem active_revision_eq (hs : Sound s) (hrow : row ∈ s.custom_evals)
    (hworkspace : row.workspace_id = actor.workspace_id) :
    active_revision a actor kind.name row.eval_id s.versions =
      .ok (s.versions.versions_of (version_key actor (row, kind))).length := by
  have hparent : (_parent row.eval_id actor).eval store a.env s.versions = (.ok (), s.versions) :=
    eval_parent <| hworkspace ▸ hs.parents row hrow
  have hhead := (hs.linear <| version_key actor (row, kind)).head_eq
  rw [active_revision, hparent]
  change Except.ok _ = _
  refine congrArg _ ?_
  refine Eq.trans ?_ <| congrArg Prod.snd hhead
  cases hfind : s.versions.heads.find (version_key actor (row, kind)) with
  | none   =>
    have hfind : s.versions.heads.find (actor.workspace_id, kind.name, row.eval_id) = none := hfind
    rw [hfind]
    rfl
  | some w =>
    have hfind : s.versions.heads.find (actor.workspace_id, kind.name, row.eval_id) = some w := hfind
    rw [hfind]
    rfl

-- A record of a definition that has none.
theorem record_eq (hnone : s.migrations.find (h.migration_key actor (row, kind)) = none)
    (version_id reason : Option String) (state : String) :
    ∃ m migrations, s.record h a actor row kind version_id reason state = .ok { s with migrations } ∧
      s.migrations.insert m = some migrations ∧ m.key = h.migration_key actor (row, kind) ∧
      m.version_id = version_id ∧ m.reason = reason ∧ m.state = state := by
  rw [LegacyState.record]
  cases hinsert : s.migrations.insert _ with
  | none            =>
    obtain ⟨m, hm⟩ := Table.insert_eq_none_iff.mp hinsert
    cases hm.symm.trans hnone
  | some migrations => exact ⟨_, migrations, rfl, hinsert, rfl, rfl, rfl, rfl⟩

-- What the step of one definition does.
structure Stepped (h : LegacyHost) (a : Answers) (actor : Actor) (d : CustomEval × LegacyKind)
    (s t : LegacyState) : Prop where
  custom_evals : t.custom_evals = s.custom_evals
  recorded     : ∃ m, t.migrations.find (h.migration_key actor d) = some m ∧
    (s.migrations.find (h.migration_key actor d) = some m ∨
      s.migrations.find (h.migration_key actor d) = none ∧ Decided h actor d s t m)
  others       : ∀ k ≠ h.migration_key actor d, t.migrations.find k = s.migrations.find k
  versions     : ∀ k ≠ version_key actor d, t.versions.versions_of k = s.versions.versions_of k
  rows         : ∀ v ∈ t.versions.versions, v ∈ s.versions.versions ∨ v.version_id = a.uuid4
  sound        : Sound t

theorem stepped_of_recorded (hs : Sound s) (hm : s.migrations.find (h.migration_key actor d) = some m) :
    Stepped h a actor d s s where
  custom_evals := rfl
  recorded     := ⟨m, hm, .inl hm⟩
  others       := fun _ _ => rfl
  versions     := fun _ _ => rfl
  rows         := fun _ => .inl
  sound        := hs

theorem stepped_of_quarantined (hs : Sound s)
    (hnone : s.migrations.find (h.migration_key actor (row, kind)) = none)
    (hnot : ¬ ((∃ content, h.Valid (row, kind) content) ∧
      s.versions.versions_of (version_key actor (row, kind)) = [])) (reason : String) :
    ∃ t, s.record h a actor row kind none (some reason) "quarantined" = .ok t ∧
      Stepped h a actor (row, kind) s t := by
  obtain ⟨m, migrations, hrecord, hinsert, hkey, hversion, hreason, hstate⟩ :=
    record_eq (a := a) hnone none (some reason) "quarantined"
  refine ⟨_, hrecord, ?_⟩
  have hdecided : Decided h actor (row, kind) s { s with migrations } m := by
    refine ⟨iff_of_false ?_ hnot, fun hmigrated => ?_, fun _ => ⟨hstate, hreason ▸ rfl, hversion⟩⟩
    · rw [hstate]
      decide
    · rw [hstate] at hmigrated
      exact absurd hmigrated (by decide)
  exact {
    custom_evals := rfl
    recorded     := ⟨m, (Table.find_insert hinsert).trans <| if_pos hkey, .inr ⟨hnone, hdecided⟩⟩
    others       := fun k hk =>
      (Table.find_insert hinsert).trans <| if_neg fun he => hk <| he.symm.trans hkey
    versions     := fun _ _ => rfl
    rows         := fun _ => .inl
    sound        := ⟨hs.linear, hs.parents⟩
  }

theorem migrate_content_of_durable (hs : Sound s) (hrow : row ∈ s.custom_evals)
    (hworkspace : row.workspace_id = actor.workspace_id)
    (hversions : s.versions.versions_of (version_key actor (row, kind)) ≠ []) :
    ∃ reason, migrate_content h a actor row kind content s =
      s.record h a actor row kind none (some reason) "quarantined" := by
  have hlength : (s.versions.versions_of (version_key actor (row, kind))).length ≠ 0 :=
    fun hzero => hversions <| List.length_eq_zero_iff.mp hzero
  rw [migrate_content, active_revision_eq hs hrow hworkspace]
  exact ⟨_, if_pos hlength⟩

theorem migrate_content_of_none (hs : Sound s) (hrow : row ∈ s.custom_evals)
    (hworkspace : row.workspace_id = actor.workspace_id)
    (hversions : s.versions.versions_of (version_key actor (row, kind)) = []) :
    migrate_content h a actor row kind content s = create_version h a actor row kind content s := by
  rw [migrate_content, active_revision_eq hs hrow hworkspace, hversions]
  rfl

theorem stepped_of_created (hs : Sound s) (hrow : row ∈ s.custom_evals)
    (hworkspace : row.workspace_id = actor.workspace_id) (hfresh : Fresh a s)
    (hwrite : actor.require_write = .ok ())
    (hnone : s.migrations.find (h.migration_key actor (row, kind)) = none)
    (hversions : s.versions.versions_of (version_key actor (row, kind)) = [])
    (hvalid : h.Valid (row, kind) content) (hstorable : Storable content) :
    ∃ t, migrate_content h a actor row kind content s = .ok t ∧
      Stepped h a actor (row, kind) s t := by
  obtain ⟨canonical, c, hcanonical, hcheck, hids, hexpected⟩ :=
    storable row.eval_id hwrite hstorable hvalid.right
  have hfind : s.versions.versions.find (actor.workspace_id, a.uuid4) = none := by
    refine Table.find_eq_none_iff.mpr fun v hv hid => ?_
    exact hfresh v hv (congrArg Prod.snd hid)
  obtain ⟨v, versions, heval, hid⟩ := @eval_create h.content_digest a.env _ c s.versions
    .custom_evals hcheck hids hexpected (hworkspace ▸ hs.parents row hrow) (hs.linear _) hversions hfind
  obtain ⟨_, -, hcreated⟩ := created_of_eval heval
  have hparents : versions.parents = s.versions.parents := by
    have := @eval_parents a.env _ (create h.content_digest (request actor kind row.eval_id canonical))
      s.versions
    rwa [heval] at this
  obtain ⟨m, migrations, hrecord, hinsert, hkey, hversion, -, hstate⟩ :=
    record_eq (h := h) (a := a) (s := { s with versions }) hnone v.version_id none "migrated"
  have hmine : versions.versions_of (version_key actor (row, kind)) = [v] := by
    rw [versions_of_created hcreated, hversions]
    exact if_pos rfl
  have hdecided : Decided h actor (row, kind) s { s with versions, migrations } m := by
    refine ⟨iff_of_true hstate ⟨⟨content, hvalid⟩, hversions⟩, fun _ => ⟨v, ?_, hversion⟩, ?_⟩
    · exact hmine ▸ .head _
    · exact fun hnot => absurd hstate hnot
  refine ⟨{ s with versions, migrations }, ?_, ?_⟩
  · rw [migrate_content_of_none hs hrow hworkspace hversions, create_version, hcanonical]
    dsimp only [bind, Except.bind]
    rw [heval]
    exact hrecord
  · exact {
      custom_evals := rfl
      recorded     := ⟨m, (Table.find_insert hinsert).trans <| if_pos hkey, .inr ⟨hnone, hdecided⟩⟩
      others       := fun k hk =>
        (Table.find_insert hinsert).trans <| if_neg fun he => hk <| he.symm.trans hkey
      versions     := fun k hk => by
        have hk' : ¬ (request actor kind row.eval_id canonical).key = k := fun he => hk he.symm
        change versions.versions_of k = _
        rw [versions_of_created hcreated, if_neg hk', List.append_nil]
      rows         := fun w hw => by
        have hw : w ∈ versions.versions.rows := hw
        rw [hcreated.versions] at hw
        refine (List.mem_append.mp hw).imp_right fun hw => ?_
        rw [List.mem_singleton.mp hw]
        exact hid
      sound        := ⟨hcreated.linear hs.linear, fun row hrow => hparents ▸ hs.parents row hrow⟩
    }

theorem migrate_content_error (hs : Sound s) (hrow : row ∈ s.custom_evals)
    (hworkspace : row.workspace_id = actor.workspace_id)
    (hversions : s.versions.versions_of (version_key actor (row, kind)) = [])
    (hvalid : h.Valid (row, kind) content) (hnot : ¬ Storable content) :
    ∃ e, migrate_content h a actor row kind content s = .error e := by
  rw [migrate_content_of_none hs hrow hworkspace hversions, create_version]
  cases hcanonical : canonicalize kind content with
  | error e      => exact ⟨e, rfl⟩
  | ok canonical =>
    obtain ⟨e, he⟩ := not_storable actor row.eval_id hnot hcanonical hvalid.right
    have heval : ((create h.content_digest (request actor kind row.eval_id canonical)).eval store
        a.env s.versions) = (.error e, s.versions) := by
      rw [create, Prog.eval_bind_error (Prog.eval_ofExcept_eq he)]
    refine ⟨.version e, ?_⟩
    dsimp only [bind, Except.bind]
    rw [heval]
    rfl

-- The step of one definition returns exactly if the definition can be stored or need not be.
theorem step_iff (h : LegacyHost) (kind : LegacyKind) (hs : Sound s) (hrow : row ∈ s.custom_evals)
    (hworkspace : row.workspace_id = actor.workspace_id) (hfresh : Fresh a s)
    (hwrite : actor.require_write = .ok ()) :
    (Convertible h actor (row, kind) s ∧
      ∃ t, migrate_definition h a actor row kind s = .ok t ∧ Stepped h a actor (row, kind) s t) ∨
    (¬ Convertible h actor (row, kind) s ∧
      ∃ e, migrate_definition h a actor row kind s = .error e) := by
  rw [migrate_definition]
  dsimp only
  cases hfind : s.migrations.find (h.migration_key actor (row, kind)) with
  | some m =>
    have hfind' : s.migrations.find (actor.workspace_id, row.eval_id, kind.name,
      h.source_digest <| kind.column row) = some m := hfind
    rw [hfind']
    refine .inl ⟨fun hnone => ?_, s, rfl, stepped_of_recorded hs hfind⟩
    cases hfind.symm.trans hnone
  | none   =>
    have hfind' : s.migrations.find (actor.workspace_id, row.eval_id, kind.name,
      h.source_digest <| kind.column row) = none := hfind
    rw [hfind', if_neg (by decide)]
    cases hloads : loads (kind.column row).toList with
    | none         =>
      have hinvalid : ¬ ∃ content, h.Valid (row, kind) content := by
        rintro ⟨content, hc, -⟩
        cases hloads.symm.trans hc
      refine .inl ⟨fun _ _ content hc => absurd ⟨content, hc⟩ hinvalid, ?_⟩
      exact stepped_of_quarantined hs hfind (fun hboth => hinvalid hboth.left) _
    | some content =>
      dsimp only
      cases hvalidate : h.validate kind content with
      | some exception =>
        have hinvalid : ¬ ∃ content, h.Valid (row, kind) content := by
          rintro ⟨content', hc, hnone⟩
          cases hloads.symm.trans hc
          cases hvalidate.symm.trans hnone
        refine .inl ⟨fun _ _ content hc => absurd ⟨content, hc⟩ hinvalid, ?_⟩
        exact stepped_of_quarantined hs hfind (fun hboth => hinvalid hboth.left) _
      | none           =>
        dsimp only
        have hvalid : h.Valid (row, kind) content := ⟨hloads, hvalidate⟩
        by_cases hversions : s.versions.versions_of (version_key actor (row, kind)) = []
        case neg =>
          refine .inl ⟨fun _ hnone => absurd hnone hversions, ?_⟩
          obtain ⟨reason, hreason⟩ := migrate_content_of_durable hs hrow hworkspace hversions
          rw [hreason]
          exact stepped_of_quarantined hs hfind (fun hboth => hversions hboth.right) _
        case pos =>
          by_cases hstorable : Storable content
          case pos =>
            refine .inl ⟨fun _ _ content' hc => ?_, ?_⟩
            · cases hloads.symm.trans hc.left
              exact hstorable
            · exact stepped_of_created hs hrow hworkspace hfresh hwrite hfind hversions hvalid hstorable
          case neg =>
            refine .inr ⟨fun hconvertible => hstorable <| hconvertible hfind hversions content hvalid, ?_⟩
            exact migrate_content_error hs hrow hworkspace hversions hvalid hstorable

end Step

section Run

variable {d' : CustomEval × LegacyKind} {ds : List ((CustomEval × LegacyKind) × ℕ)}

theorem name_injective : Function.Injective LegacyKind.name := by
  intro kind kind' hname
  cases kind <;> cases kind' <;> first | rfl | exact absurd hname (by decide)

theorem migration_key_ne (hne : (d.1.eval_id, d.2) ≠ (d'.1.eval_id, d'.2)) :
    h.migration_key actor d ≠ h.migration_key actor d' := by
  intro heq
  obtain ⟨-, heq⟩ := Prod.mk.inj heq
  obtain ⟨hid, heq⟩ := Prod.mk.inj heq
  exact hne <| Prod.ext hid <| name_injective (Prod.mk.inj heq).left

theorem version_key_ne (hne : (d.1.eval_id, d.2) ≠ (d'.1.eval_id, d'.2)) :
    version_key actor d ≠ version_key actor d' := by
  intro heq
  obtain ⟨-, heq⟩ := Prod.mk.inj heq
  obtain ⟨hname, hid⟩ := Prod.mk.inj heq
  exact hne <| Prod.ext hid <| name_injective hname

-- A definition that a step is not about is as it was.
theorem Stepped.untouched (x : Stepped h a actor d s t)
    (hne : (d.1.eval_id, d.2) ≠ (d'.1.eval_id, d'.2)) :
    t.migrations.find (h.migration_key actor d') = s.migrations.find (h.migration_key actor d') ∧
      t.versions.versions_of (version_key actor d') = s.versions.versions_of (version_key actor d') :=
  ⟨x.others _ <| migration_key_ne hne.symm, x.versions _ <| version_key_ne hne.symm⟩

theorem Stepped.convertible_iff (x : Stepped h a actor d s t)
    (hne : (d.1.eval_id, d.2) ≠ (d'.1.eval_id, d'.2)) :
    Convertible h actor d' t ↔ Convertible h actor d' s := by
  obtain ⟨hmigrations, hversions⟩ := x.untouched hne
  rw [Convertible, Convertible, hmigrations, hversions]

theorem Decided.of_versions (x : Decided h actor d s t m)
    (hs : u.versions.versions_of (version_key actor d) = s.versions.versions_of (version_key actor d)) :
    Decided h actor d u t m :=
  ⟨hs ▸ x.migrated_iff, x.migrated, x.quarantined⟩

theorem Migrated.cons {ds : List (CustomEval × LegacyKind)} (x : Stepped h a actor d s t)
    (y : Migrated h actor ds t u)
    (hne : ∀ d' ∈ ds, (d.1.eval_id, d.2) ≠ (d'.1.eval_id, d'.2)) :
    Migrated h actor (d :: ds) s u where
  custom_evals := y.custom_evals.trans x.custom_evals
  recorded     := by
    have hmigrations := y.others (h.migration_key actor d) fun d' hd' =>
      migration_key_ne (hne d' hd').symm
    have hversions := y.versions (version_key actor d) fun d' hd' =>
      version_key_ne (hne d' hd').symm
    refine List.forall_mem_cons.mpr ⟨?_, fun d' hd' => ?_⟩
    · obtain ⟨m, hm, hrecorded⟩ := x.recorded
      refine ⟨m, hmigrations.trans hm, hrecorded.imp_right fun ⟨hnone, hdecided⟩ => ⟨hnone, ?_⟩⟩
      exact ⟨hdecided.migrated_iff, fun hmigrated => hversions ▸ hdecided.migrated hmigrated,
        hdecided.quarantined⟩
    · obtain ⟨hmigrations, hversions⟩ := x.untouched (hne d' hd')
      obtain ⟨m, hm, hrecorded⟩ := y.recorded d' hd'
      refine ⟨m, hm, ?_⟩
      rw [← hmigrations]
      exact hrecorded.imp_right fun ⟨hnone, hdecided⟩ => ⟨hnone, hdecided.of_versions hversions.symm⟩
  others       := fun k hk => by
    obtain ⟨hd, hds⟩ := List.forall_mem_cons.mp hk
    exact (y.others k hds).trans <| x.others k hd.symm
  versions     := fun k hk => by
    obtain ⟨hd, hds⟩ := List.forall_mem_cons.mp hk
    exact (y.versions k hds).trans <| x.versions k hd.symm

def migrate_all (h : LegacyHost) (actor : Actor) (ds : List ((CustomEval × LegacyKind) × ℕ))
    (s : LegacyState) : Except LegacyError LegacyState :=
  ds.foldlM (fun s d => migrate_definition h (h.answers d.2) actor d.1.1 d.1.2 s) s

-- The definitions that a run goes through: they are of rows of the workspace, each comes once, and
-- each has an id of its own for its version.
structure Distinct (h : LegacyHost) (actor : Actor) (ds : List ((CustomEval × LegacyKind) × ℕ))
    (s : LegacyState) : Prop where
  rows  : ∀ d ∈ ds, d.1.1 ∈ s.custom_evals ∧ d.1.1.workspace_id = actor.workspace_id
  keys  : (ds.map fun d => (d.1.1.eval_id, d.1.2)).Nodup
  fresh : ∀ d ∈ ds, Fresh (h.answers d.2) s
  ids   : ds.Pairwise fun d d' => (h.answers d.2).uuid4 ≠ (h.answers d'.2).uuid4

theorem migrate_all_iff (hs : Sound s) (hds : Distinct h actor ds s)
    (hwrite : actor.require_write = .ok ()) :
    ((∀ d ∈ ds, Convertible h actor d.1 s) ∧
      ∃ t, migrate_all h actor ds s = .ok t ∧ Migrated h actor (ds.map (·.1)) s t) ∨
    (¬ (∀ d ∈ ds, Convertible h actor d.1 s) ∧ ∃ e, migrate_all h actor ds s = .error e) := by
  induction ds generalizing s with
  | nil          =>
    exact .inl ⟨List.forall_mem_nil _, s, rfl,
      ⟨rfl, List.forall_mem_nil _, fun _ _ => rfl, fun _ _ => rfl⟩⟩
  | cons d ds ih =>
    obtain ⟨hrow, hrows⟩ := List.forall_mem_cons.mp hds.rows
    obtain ⟨hfresh, hfreshes⟩ := List.forall_mem_cons.mp hds.fresh
    obtain ⟨hid, hids⟩ := List.pairwise_cons.mp hds.ids
    obtain ⟨hkey, hkeys⟩ := List.nodup_cons.mp hds.keys
    have hne : ∀ d' ∈ ds, (d.1.1.eval_id, d.1.2) ≠ (d'.1.1.eval_id, d'.1.2) := fun d' hd' heq =>
      hkey <| List.mem_map.mpr ⟨d', hd', heq.symm⟩
    obtain ⟨hconvertible, t, hstep, hstepped⟩ | ⟨hnot, e, hstep⟩ :=
      step_iff h d.1.2 hs hrow.left hrow.right hfresh hwrite
    · have hds' : Distinct h actor ds t := by
        refine ⟨fun d' hd' => hstepped.custom_evals ▸ hrows d' hd', hkeys, fun d' hd' v hv => ?_, hids⟩
        rcases hstepped.rows v hv with hv | hv
        · exact hfreshes d' hd' v hv
        · exact hv ▸ hid d' hd'
      have hiff : (∀ d' ∈ ds, Convertible h actor d'.1 t) ↔ ∀ d' ∈ ds, Convertible h actor d'.1 s :=
        forall₂_congr fun d' hd' => hstepped.convertible_iff (hne d' hd')
      have hcons : migrate_all h actor (d :: ds) s = migrate_all h actor ds t := by
        rw [migrate_all, List.foldlM_cons, hstep]
        rfl
      rw [hcons, List.forall_mem_cons, and_iff_right hconvertible, ← hiff]
      refine (ih hstepped.sound hds').imp_left fun ⟨hall, u, hu, hmigrated⟩ => ⟨hall, u, hu, ?_⟩
      refine Migrated.cons hstepped hmigrated fun e he => ?_
      obtain ⟨d', hd', rfl⟩ := List.mem_map.mp he
      exact hne d' hd'
    · refine .inr ⟨fun hall => hnot <| hall d (.head _), e, ?_⟩
      rw [migrate_all, List.foldlM_cons, hstep]
      rfl

-- What has its outcome is left alone.
theorem migrate_all_of_recorded
    (hrecorded : ∀ d ∈ ds, (s.migrations.find (h.migration_key actor d.1)).isSome) :
    migrate_all h actor ds s = .ok s := by
  induction ds with
  | nil          => rfl
  | cons d ds ih =>
    obtain ⟨hd, hds⟩ := List.forall_mem_cons.mp hrecorded
    have hstep : migrate_definition h (h.answers d.2) actor d.1.1 d.1.2 s = .ok s := if_pos hd
    rw [migrate_all, List.foldlM_cons, hstep]
    exact ih hds

theorem migrate_legacy_eq_ok (hwrite : actor.require_write = .ok ())
    (hall : migrate_all h actor (s.definitions actor.workspace_id).zipIdx s = .ok t) :
    migrate_legacy h actor s = (.ok <| t.listed actor.workspace_id, t) := by
  rw [migrate_legacy, hwrite]
  dsimp only
  rw [migrate_all] at hall
  rw [hall]

-- The definitions of one row are told apart by their kinds, and those of two rows by their ids.
theorem nodup_definitions {rows : List CustomEval} (hrows : (rows.map CustomEval.eval_id).Nodup) :
    ((rows.flatMap fun row => [(row, LegacyKind.evaluation), (row, .dashboard)]).map
      fun d => (d.1.eval_id, d.2)).Nodup := by
  induction rows with
  | nil            => exact .nil
  | cons row rows ih =>
    obtain ⟨hrow, hrows⟩ := List.nodup_cons.mp hrows
    have hother : ∀ kind, (row.eval_id, kind) ∉ (rows.flatMap fun row =>
        [(row, LegacyKind.evaluation), (row, .dashboard)]).map fun d => (d.1.eval_id, d.2) := by
      intro kind hmem
      obtain ⟨d, hd, hid⟩ := List.mem_map.mp hmem
      obtain ⟨row', hrow', hd⟩ := List.mem_flatMap.mp hd
      refine hrow <| List.mem_map.mpr ⟨row', hrow', ?_⟩
      rcases List.mem_cons.mp hd with rfl | hd
      · exact congrArg Prod.fst hid
      · cases List.mem_singleton.mp hd
        exact congrArg Prod.fst hid
    refine List.nodup_cons.mpr ⟨fun hmem => ?_, List.nodup_cons.mpr ⟨hother _, ih hrows⟩⟩
    rcases List.mem_cons.mp hmem with heq | hmem
    · cases (Prod.mk.inj heq).right
    · exact hother _ hmem

theorem pairwise_zipIdx {α : Type} {P : ℕ → ℕ → Prop} (hP : ∀ i j, i < j → P i j) (xs : List α)
    (n : ℕ) : (xs.zipIdx n).Pairwise fun d d' => P d.2 d'.2 := by
  induction xs generalizing n with
  | nil        => exact .nil
  | cons x xs ih =>
    refine List.pairwise_cons.mpr ⟨fun d hd => hP _ _ ?_, ih _⟩
    exact List.le_snd_of_mem_zipIdx hd

theorem mem_definitions (hd : d ∈ s.definitions actor.workspace_id) :
    d.1 ∈ s.custom_evals ∧ d.1.workspace_id = actor.workspace_id := by
  obtain ⟨row, hrow, hd⟩ := List.mem_flatMap.mp hd
  obtain ⟨hrow, hworkspace⟩ := List.mem_filter.mp hrow
  have hfst : d.1 = row := by
    rcases List.mem_cons.mp hd with hd | hd
    · rw [hd]
    · rw [List.mem_singleton.mp hd]
  exact hfst ▸ ⟨hrow, of_decide_eq_true hworkspace⟩

theorem definitions_distinct (hfresh : ∀ i, Fresh (h.answers i) s)
    (hids : Function.Injective fun i => (h.answers i).uuid4) :
    Distinct h actor (s.definitions actor.workspace_id).zipIdx s where
  rows  := fun _ hd => mem_definitions <| List.fst_mem_of_mem_zipIdx hd
  keys  := by
    have hfst := congrArg (List.map fun d : CustomEval × LegacyKind => (d.1.eval_id, d.2)) <|
      List.zipIdx_map_fst 0 (s.definitions actor.workspace_id)
    rw [List.map_map] at hfst
    refine hfst ▸ nodup_definitions ?_
    exact s.custom_evals.nodup.sublist <| List.filter_sublist.map _
  fresh := fun d _ => hfresh d.2
  ids   := pairwise_zipIdx (fun _ _ hlt heq => Nat.ne_of_lt hlt <| hids heq) _ 0

end Run

end Versions
