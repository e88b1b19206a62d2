import Traceline.Library.Wp
import Traceline.Library.Forall2
import Traceline.Versions.Legacy
import Traceline.Versions.Theorems.Linear

-- When a call of `create` returns, and what makes a version of a definition that validates.
namespace Versions

section Create

variable {sha256 : List (String × Json) → String} {env : ∀ q, sql.Answer q}
variable {r : Request} {c : Checked} {s : State} {v : VersionRecord} {h : VersionHead}
variable {workspace_id parent_id : String} {tables : List ParentTable} {table : ParentTable}

theorem eval_find_parent (htable : table ∈ tables)
    (hparent : { table, workspace_id, parent_id } ∈ s.parents) :
    (find_parent workspace_id parent_id tables).eval store env s = (.ok (), s) := by
  induction tables with
  | nil                 => cases htable
  | cons table' tables ih =>
    have hfound : (execute (.select_parent { table := table', workspace_id, parent_id })).eval store
        env s = (.ok (decide ({ table := table', workspace_id, parent_id } ∈ s.parents) : Bool), s) :=
      rfl
    rw [find_parent, Prog.eval_bind_ok hfound]
    cases hfirst : decide ({ table := table', workspace_id, parent_id } ∈ s.parents) with
    | true  => rfl
    | false =>
      refine ih ((List.mem_cons.mp htable).resolve_left ?_)
      rintro rfl
      exact absurd hparent <| of_decide_eq_false hfirst

theorem eval_parent {actor : Actor} {eval_id : String}
    (hparent : ⟨table, actor.workspace_id, eval_id⟩ ∈ s.parents) :
    (_parent eval_id actor).eval store env s = (.ok (), s) :=
  eval_find_parent (by cases table <;> decide) hparent

theorem insert_version_ok (hkey : s.versions_of v.key = []) (hprevious : v.previous_version_id = none)
    (hfresh : s.versions.find v.id = none) :
    ∃ versions, s.insert_version v = (.ok (), { s with versions }) := by
  have hany : (s.versions.rows.any fun v' => v'.key = v.key && v'.revision = v.revision) = false := by
    refine List.any_eq_false.mpr fun v' hv' hsame => ?_
    have hmem : v' ∈ s.versions_of v.key :=
      List.mem_filter.mpr ⟨hv', (Bool.and_eq_true_iff.mp hsame).left⟩
    rw [hkey] at hmem
    cases hmem
  rw [State.insert_version, hany, hprevious]
  cases hinsert : s.versions.insert v with
  | none          =>
    obtain ⟨v', hv'⟩ := Table.insert_eq_none_iff.mp hinsert
    cases hv'.symm.trans hfresh
  | some versions => exact ⟨versions, rfl⟩

theorem countP_heads (hfind : s.heads.find v.key = some h) {expected : ℕ} (hr : h.revision = expected) :
    (s.update_head v expected).1 = 1 := by
  rw [State.update_head]
  dsimp only
  have hfilter := Table.filter_key (t := s.heads) (k := v.key)
  rw [hfind] at hfilter
  rw [List.countP_congr (q := fun h => (h.revision = expected : Bool) && (h.key = v.key : Bool))
    fun h _ => by rw [Bool.and_comm], ← List.countP_filter, hfilter]
  simp [hr]

-- A first version of an object is created where nothing stands against it.
theorem eval_create (hcheck : r.check = .ok c) (hids : c.artifact_ids = [])
    (hexpected : c.expected_revision = 0)
    (hparent : ⟨table, r.actor.workspace_id, r.parent_id⟩ ∈ s.parents)
    (hlinear : Linear r.key s (s.versions_of r.key)) (hnone : s.versions_of r.key = [])
    (hfresh : s.versions.find (r.actor.workspace_id, env .uuid4) = none) :
    ∃ v t, (create sha256 r).eval store env s = (.ok v, t) ∧ v.version_id = env .uuid4 := by
  have hhead : s.heads.find r.key = none := by
    rw [hlinear.head, hnone]
    rfl
  let head : VersionHead := ⟨r.actor.workspace_id, r.kind, r.parent_id, none, 0⟩
  let s' := s.insert_head r.actor.workspace_id r.kind r.parent_id
  have hfind : s'.heads.find r.key = some head := by
    rw [find_insert_head, hhead]
    exact if_pos rfl
  let v := version_record sha256 r c head (env .uuid4) (env .now)
  have hversions : s'.versions = s.versions := rfl
  obtain ⟨versions, hinsert⟩ := insert_version_ok (s := s') (v := v) hnone rfl hfresh
  have hcount : (State.update_head { s' with versions } v 0).1 = 1 := countP_heads hfind rfl
  refine ⟨v, (State.update_head { s' with versions } v 0).2, ?_, rfl⟩
  rw [create, Prog.eval_bind_ok (Prog.eval_ofExcept_eq hcheck), insert,
    Prog.eval_bind_ok (eval_parent hparent)]
  have hinsert_head : (execute (.insert_head r.actor.workspace_id r.kind r.parent_id)).eval store env
      s = (.ok (), s') := rfl
  have hselect_head : (execute (.select_head r.actor.workspace_id r.kind r.parent_id)).eval store env
      s' = (.ok (some head), s') := congrArg (fun h => (Except.ok h, s')) hfind
  rw [Prog.eval_bind_ok hinsert_head, Prog.eval_bind_ok hselect_head]
  dsimp only
  rw [hexpected, if_neg (not_not.mpr rfl), hids]
  change (write (version_record sha256 r c head (env .uuid4) (env .now)) [] 0).eval store env s' = _
  have hinsert' : (execute (.insert_version v)).eval store env s' = (.ok (), { s' with versions }) :=
    (Prog.eval_perform _).trans hinsert
  rw [write, Prog.eval_bind_ok hinsert']
  have hupdate : (execute (.update_head v 0)).eval store env { s' with versions } =
      (.ok 1, (State.update_head { s' with versions } v 0).2) :=
    congrArg (fun n => (Except.ok n, (State.update_head { s' with versions } v 0).2)) hcount
  change (execute (.update_head v 0) >>= _).eval store env { s' with versions } = _
  rw [Prog.eval_bind_ok hupdate]
  rfl

end Create

open Loads (Fields set_item mem_set_item)
open Except (bind_eq_ok_iff mapM_eq_ok_iff)

variable {h : LegacyHost} {actor : Actor} {fields : Fields} {key : String} {value value' : Json}
variable {content canonical : Json} {kind : LegacyKind} {parent_id : String}

section Items

theorem finiteFloats_set_item (hlookup : fields.lookup key = some value)
    (hvalue : value'.finiteFloats = value.finiteFloats) :
    Json.finiteFloatsFields (set_item key value' fields) = Json.finiteFloatsFields fields := by
  induction fields with
  | nil              => cases hlookup
  | cons kv fields ih =>
    rw [List.lookup_cons] at hlookup
    rw [set_item]
    split
    case isTrue hkey  =>
      rw [hkey, beq_self_eq_true] at hlookup
      rw [Json.finiteFloatsFields, Json.finiteFloatsFields, hvalue, ← Option.some.inj hlookup]
    case isFalse hkey =>
      rw [beq_eq_false_iff_ne.mpr (Ne.symm hkey)] at hlookup
      rw [Json.finiteFloatsFields, Json.finiteFloatsFields, ih hlookup]

theorem finiteFloats_of_forall₂ {xs ys : List Json}
    (hxs : List.Forall₂ (fun x y => Json.finiteFloats y = Json.finiteFloats x) xs ys) :
    Json.finiteFloatsList ys = Json.finiteFloatsList xs := by
  induction hxs with
  | nil          => rfl
  | cons hx _ ih => rw [Json.finiteFloatsList, Json.finiteFloatsList, hx, ih]

end Items

section Canonical

theorem canonicalize_block_ok {members : Fields} {name : String}
    (hname : members.lookup "component" = some (.str name)) :
    ∃ block, canonicalize_block (.obj members) = .ok block ∧
      block.finiteFloats = (Json.obj members).finiteFloats := by
  rw [canonicalize_block, hname]
  dsimp only
  cases LEGACY_COMPONENTS.lookup name with
  | none           => exact ⟨_, rfl, rfl⟩
  | some component =>
    refine ⟨_, rfl, ?_⟩
    rw [Json.finiteFloats, Json.finiteFloats]
    exact finiteFloats_set_item hname rfl

-- A valid dashboard keeps its fields, and is finite if it was.
theorem canonicalize_dashboard_ok (hvalid : h.validate_definition (.obj fields) = none) :
    ∃ fields', canonicalize_dashboard (.obj fields) = .ok (.obj fields') ∧
      (∀ kv ∈ fields', kv.1 ∈ definition_fields) ∧
      (Json.obj fields').finiteFloats = (Json.obj fields).finiteFloats := by
  have hknown := h.definition_known hvalid
  obtain ⟨blocks, hblocks, hcomponents⟩ := h.definition_blocks hvalid
  rw [canonicalize_dashboard, hblocks]
  dsimp only
  split
  case isFalse => exact ⟨fields, rfl, hknown, rfl⟩
  case isTrue  =>
    have heach : ∀ block ∈ blocks, ∃ block', canonicalize_block block = .ok block' := by
      intro block hblock
      obtain ⟨members, name, rfl, hname⟩ := hcomponents block hblock
      exact (canonicalize_block_ok hname).imp fun _ => And.left
    obtain ⟨blocks', hmapM⟩ := Except.exists_mapM_eq_ok_iff.mpr heach
    have hfinite : Json.finiteFloatsList blocks' = Json.finiteFloatsList blocks := by
      refine finiteFloats_of_forall₂ <| (mapM_eq_ok_iff.mp hmapM).imp_of_mem fun block hblock block' _ hb => ?_
      obtain ⟨members, name, rfl, hname⟩ := hcomponents block hblock
      obtain ⟨block'', hb', hsame⟩ := canonicalize_block_ok hname
      cases hb.symm.trans hb'
      exact hsame
    refine ⟨set_item "blocks" (.arr blocks') fields, ?_, fun kv hkv => ?_, ?_⟩
    · rw [hmapM]
      rfl
    · rcases mem_set_item hkv with rfl | hkv
      · exact (by decide : "blocks" ∈ definition_fields)
      · exact hknown kv hkv
    · rw [Json.finiteFloats, Json.finiteFloats]
      refine finiteFloats_set_item hblocks ?_
      rw [Json.finiteFloats, Json.finiteFloats, hfinite]

end Canonical

section Content

-- A definition that a version can be made of: an object without `NaN` and infinities in it.
def Storable (content : Json) : Prop :=
  (∃ fields, content = .obj fields) ∧ content.finiteFloats = true

def known_fields : LegacyKind → List String
  | .evaluation => spec_fields
  | .dashboard  => definition_fields

theorem request_check (kind : LegacyKind) (hwrite : actor.require_write = .ok ())
    (hknown : ∀ kv ∈ fields, kv.1 ∈ known_fields kind) (hfinite : (Json.obj fields).finiteFloats = true) :
    ∃ c, (request actor kind parent_id (.obj fields)).check = .ok c ∧ c.artifact_ids = [] ∧
      c.expected_revision = 0 := by
  have hlookup : ∀ name, name ∉ known_fields kind → (Json.obj fields).get? name = none := by
    intro name hname
    refine List.lookup_eq_none_iff.mpr fun kv hkv => bne_iff_ne.mpr ?_
    rintro rfl
    exact hname <| hknown kv hkv
  have hidentity : (["workspace_id", "actor_id", "created_at", "revision"].all fun k =>
      ((Json.obj fields).get? k).isNone) = true := by
    refine List.all_eq_true.mpr fun name hname => ?_
    rw [hlookup name (by cases kind <;> revert name <;> decide)]
    rfl
  have hkind : kind.name ∈ VERSION_KINDS := by cases kind <;> decide
  have hprovenance := hlookup "authoring_provenance" (by cases kind <;> decide)
  have hids := hlookup "artifact_ids" (by cases kind <;> decide)
  unfold Request.check request
  dsimp only
  rw [hwrite, if_pos hkind, hidentity, hfinite, hprovenance, hids]
  exact ⟨_, rfl, rfl, rfl⟩

-- Content that is not storable is refused.
theorem not_storable (actor : Actor) (parent_id : String) (hnot : ¬ Storable content)
    (hcanonical : canonicalize kind content = .ok canonical) (hvalid : h.validate kind content = none) :
    ∃ e, (request actor kind parent_id canonical).check = .error e := by
  cases hcheck : (request actor kind parent_id canonical).check with
  | error e => exact ⟨e, rfl⟩
  | ok c    =>
    have hcheck' := hcheck
    obtain ⟨hcontent, -, -⟩ := check_ok hcheck
    obtain ⟨_, -, hcheck⟩ := bind_eq_ok_iff.mp hcheck'
    obtain ⟨_, -, hcheck⟩ := bind_eq_ok_iff.mp hcheck
    obtain ⟨_, -, hcheck⟩ := bind_eq_ok_iff.mp hcheck
    obtain ⟨_, -, hcheck⟩ := bind_eq_ok_iff.mp hcheck
    obtain ⟨_, hdemand, _⟩ := bind_eq_ok_iff.mp hcheck
    have hfinite : canonical.finiteFloats = true := by
      by_contra hfalse
      rw [demand_eq_ok_iff] at hdemand
      change (if canonical.finiteFloats = true then _ else _) = _ at hdemand
      rw [if_neg hfalse] at hdemand
      cases hdemand
    have hcontent : canonical = .obj c.content := hcontent
    refine absurd ?_ hnot
    cases kind with
    | evaluation =>
      cases hcanonical
      exact ⟨⟨_, hcontent⟩, hfinite⟩
    | dashboard  =>
      cases content with
      | obj fields =>
        obtain ⟨fields', hfields', -, hsame⟩ := canonicalize_dashboard_ok hvalid
        cases hcanonical.symm.trans hfields'
        exact ⟨⟨_, rfl⟩, hsame.symm.trans hfinite⟩
      | null | bool | int | float | str | arr => cases hcanonical

theorem storable (parent_id : String) (hwrite : actor.require_write = .ok ()) (hs : Storable content)
    (hvalid : h.validate kind content = none) : ∃ canonical c, canonicalize kind content = .ok canonical ∧
      (request actor kind parent_id canonical).check = .ok c ∧ c.artifact_ids = [] ∧
        c.expected_revision = 0 := by
  obtain ⟨⟨fields, rfl⟩, hfinite⟩ := hs
  cases kind with
  | evaluation =>
    obtain ⟨c, hc⟩ := request_check .evaluation hwrite (h.spec_known hvalid) hfinite
    exact ⟨_, c, rfl, hc⟩
  | dashboard  =>
    obtain ⟨fields', hfields', hknown, hsame⟩ := canonicalize_dashboard_ok hvalid
    obtain ⟨c, hc⟩ := request_check .dashboard hwrite hknown (hsame.trans hfinite)
    exact ⟨_, c, hfields', hc⟩

end Content

end Versions
