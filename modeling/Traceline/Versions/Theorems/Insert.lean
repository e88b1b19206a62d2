import Traceline.Versions.Store

open Prog (wp_bind wp_forM wp_mono wp_returns_perform)

namespace Versions

def Request.key (r : Request) : String × String × String :=
  (r.actor.workspace_id, r.kind, r.parent_id)

-- The head that points to a version.
def VersionRecord.head (v : VersionRecord) : VersionHead where
  workspace_id      := v.workspace_id
  kind              := v.kind
  parent_id         := v.parent_id
  active_version_id := some v.version_id
  revision          := v.revision

theorem VersionHead.activate_eq {h : VersionHead} {v : VersionRecord} (hk : h.key = v.key) :
    h.activate v = v.head := by
  obtain ⟨w, k, p, _, _⟩ := h
  obtain ⟨rfl, hk⟩ := Prod.mk.inj hk
  obtain ⟨rfl, rfl⟩ := Prod.mk.inj hk
  rfl

def VersionRecord.reference (v : VersionRecord) (artifact_id : String) : VersionArtifact where
  workspace_id := v.workspace_id
  version_id   := v.version_id
  artifact_id

-- What a call that returns has done to the tables.
structure Created (r : Request) (c : Checked) (s : State) (v : VersionRecord) (t : State) :
    Prop where
  key        : v.key = r.key
  content    : v.content = c.content
  revision   : v.revision = c.expected_revision + 1
  previous   : ((s.heads.find r.key).map fun h => (h.active_version_id, h.revision)).getD (none, 0) =
    (v.previous_version_id, c.expected_revision)
  heads      : ∀ k, t.heads.find k = if k = r.key then some v.head else s.heads.find k
  fresh      : s.versions.find v.id = none
  versions   : t.versions.rows = s.versions.rows ++ [v]
  references : t.references.rows = s.references.rows ++ c.artifact_ids.dedup.map v.reference

section Statements

variable {allow : Query → String → Prop} {s : State} {v : VersionRecord} {d : Statement}

theorem wp_execute {Q : sql.Reply d → State → Prop}
    (h : ∀ r t, store.perform d s = (.ok r, t) → Q r t) :
    (execute d).wp (.returns store allow) Q s :=
  wp_returns_perform h

theorem wp_find_parent {workspace_id parent_id : String} {tables : List ParentTable} :
    (find_parent workspace_id parent_id tables).wp (.returns store allow) (fun _ t => t = s) s := by
  induction tables with
  | nil          => trivial
  | cons _ _ ih =>
    refine (wp_bind _ _ _).mpr <| wp_execute fun found t hp => ?_
    obtain ⟨-, rfl⟩ := Prod.mk.inj hp
    cases found with
    | true  => rfl
    | false => exact ih

theorem wp_ready {actor : Actor} {artifact_id : String} :
    (ready actor artifact_id).wp (.returns store allow) (fun _ t => t = s) s := by
  refine (wp_bind _ _ _).mpr <| wp_execute fun found t hp => ?_
  obtain ⟨-, rfl⟩ := Prod.mk.inj hp
  cases found with
  | true  => rfl
  | false => trivial

theorem wp_all_ready {actor : Actor} (artifact_ids : List String) :
    (artifact_ids.forM (ready actor)).wp (.returns store allow) (fun _ t => t = s) s := by
  let I (_ : List String) (t : store.State) : Prop := t = s
  refine wp_forM (I := I) artifact_ids (fun _ _ t ht => ?_) rfl
  rw [show t = s from ht]
  exact wp_ready

-- The row a head has once it was inserted, or was there.
theorem find_insert_head {workspace_id kind parent_id : String} (k : String × String × String) :
    (s.insert_head workspace_id kind parent_id).heads.find k =
      if k = (workspace_id, kind, parent_id) then
        (s.heads.find k).or (some ⟨workspace_id, kind, parent_id, none, 0⟩)
      else s.heads.find k := by
  unfold State.insert_head
  dsimp only
  cases hi : s.heads.insert ⟨workspace_id, kind, parent_id, none, 0⟩ with
  | none   =>
    obtain ⟨h, hh⟩ := Table.insert_eq_none_iff.mp hi
    change s.heads.find (workspace_id, kind, parent_id) = some h at hh
    split
    case isTrue hk  => rw [hk, Option.getD_none, hh, Option.some_or]
    case isFalse hk => rfl
  | some t =>
    have hn : s.heads.find (workspace_id, kind, parent_id) = none :=
      Table.insert_eq_some_iff.mp hi |>.left
    rw [Option.getD_some, Table.find_insert hi]
    change (if (workspace_id, kind, parent_id) = k then _ else _) = _
    split
    case isTrue hk  => rw [← hk, if_pos rfl, hn, Option.none_or]
    case isFalse hk => rw [if_neg (Ne.symm hk)]

theorem insert_version_cases {t : State} (h : s.insert_version v = (.ok (), t)) :
    s.versions.find v.id = none ∧ t.versions.rows = s.versions.rows ++ [v] ∧
      t.heads = s.heads ∧ t.references = s.references := by
  unfold State.insert_version at h
  split at h
  · cases h
  · split at h
    · cases h
    · split at h
      · cases h
      · rename_i hi
        obtain ⟨-, rfl⟩ := Prod.mk.inj h
        obtain ⟨hn, hr⟩ := Table.insert_eq_some_iff.mp hi
        exact ⟨hn, hr, rfl, rfl⟩

theorem insert_reference_cases {t : State} {r : VersionArtifact}
    (h : s.insert_reference r = (.ok (), t)) :
    t.references.rows = s.references.rows ++ [r] ∧ t.heads = s.heads ∧ t.versions = s.versions := by
  unfold State.insert_reference at h
  split at h
  · cases h
  · split at h
    · cases h
    · rename_i hi
      obtain ⟨-, rfl⟩ := Prod.mk.inj h
      exact ⟨Table.insert_eq_some_iff.mp hi |>.right, rfl, rfl⟩

theorem wp_references (l : List String) :
    (l.forM (reference v)).wp (.returns store allow)
      (fun _ t => t.references.rows = s.references.rows ++ l.map v.reference ∧
        t.heads = s.heads ∧ t.versions = s.versions) s := by
  let I (past : List String) (t : store.State) : Prop :=
    t.references.rows = s.references.rows ++ past.map v.reference ∧
      t.heads = s.heads ∧ t.versions = s.versions
  have hnil : I [] s := ⟨by simp, rfl, rfl⟩
  refine wp_forM (I := I) l (fun past id t ht => ?_) hnil
  obtain ⟨hr, hh, hv⟩ := ht
  refine wp_execute fun _ u hp => ?_
  obtain ⟨hr', hh', hv'⟩ := insert_reference_cases hp
  refine ⟨?_, hh'.trans hh, hv'.trans hv⟩
  rw [hr', hr, List.map_append, List.append_assoc]
  rfl

theorem find_update_head {expected : ℕ} (k : String × String × String) :
    (s.update_head v expected).2.heads.find k =
      (s.heads.find k).map fun h =>
        if h.key = v.key && h.revision = expected then h.activate v else h := by
  rw [State.update_head, Table.find_update]

-- What the statements that write a version do to the tables.
theorem wp_write {artifact_ids : List String} {h : VersionHead} {expected : ℕ}
    (hh : s.heads.find v.key = some h) (hr : h.revision = expected) :
    (write v artifact_ids expected).wp (.returns store allow) (fun v' t => v' = v ∧
      (∀ k, t.heads.find k = if k = v.key then some v.head else s.heads.find k) ∧
      s.versions.find v.id = none ∧ t.versions.rows = s.versions.rows ++ [v] ∧
      t.references.rows = s.references.rows ++ artifact_ids.dedup.map v.reference) s := by
  refine (wp_bind _ _ _).mpr <| wp_execute fun _ t hp => ?_
  obtain ⟨hn, hv, hheads, href⟩ := insert_version_cases hp
  refine (wp_bind _ _ _).mpr <| wp_mono (fun _ u hu => ?_) <| wp_references _
  obtain ⟨href', hheads', hv'⟩ := hu
  refine (wp_bind _ _ _).mpr <| wp_execute fun updated w hp => ?_
  obtain ⟨-, rfl⟩ := Prod.mk.inj hp
  rw [Prog.wp_ite]
  refine ⟨fun _ => trivial, fun _ => ?_⟩
  refine ⟨rfl, fun k => ?_, hn, ?_, ?_⟩
  · rw [find_update_head, hheads', hheads]
    split
    case isTrue hk  =>
      have hkey : h.key = v.key := Table.key_of_find hh
      simp [hk, hh, hkey, hr, VersionHead.activate_eq]
    case isFalse hk =>
      cases hf : s.heads.find k with
      | none    => rfl
      | some h' => simp [Table.key_of_find hf, hk]
  · change u.versions.rows = _
    rw [hv', hv]
  · change u.references.rows = _
    rw [href', href]

end Statements

section Insert

variable {sha256 : List (String × Json) → String} {allow : Query → String → Prop}
variable {r : Request} {c : Checked} {s : State}

theorem wp_insert :
    (insert sha256 r c).wp (.returns store allow) (fun v t => Created r c s v t) s := by
  refine (wp_bind _ _ _).mpr <| wp_mono (fun _ s' hs => ?_) wp_find_parent
  rw [show s' = s from hs]
  refine (wp_bind _ _ _).mpr <| wp_execute fun _ u hp => ?_
  obtain ⟨-, rfl⟩ := Prod.mk.inj hp
  refine (wp_bind _ _ _).mpr <| wp_execute fun head u hp => ?_
  obtain ⟨hhead, rfl⟩ := Prod.mk.inj hp
  replace hhead := Except.ok.inj hhead
  cases head with
  | none      => trivial
  | some head =>
    dsimp only
    rw [Prog.wp_ite]
    refine ⟨fun _ => trivial, fun hrev => ?_⟩
    push Not at hrev
    refine (wp_bind _ _ _).mpr <| wp_mono (fun _ u hu => ?_) <| wp_all_ready _
    subst hu
    intro version_id _ created_at _
    have hrow := hhead
    rw [find_insert_head, if_pos rfl] at hrow
    refine wp_mono (fun v u hu => ?_) <| wp_write (h := head) hhead hrev
    obtain ⟨rfl, hheads, hn, hv, hr⟩ := hu
    exact {
      key        := rfl
      content    := rfl
      revision   := rfl
      previous   := by
        change ((s.heads.find r.key).or _) = _ at hrow
        cases hf : s.heads.find r.key with
        | none   =>
          rw [hf, Option.none_or] at hrow
          obtain rfl := Option.some.inj hrow
          exact Prod.ext rfl hrev
        | some h =>
          rw [hf, Option.some_or] at hrow
          obtain rfl := Option.some.inj hrow
          exact Prod.ext rfl hrev
      heads      := fun k => by
        rw [hheads, find_insert_head]
        change (if k = r.key then _ else if k = r.key then _ else _) = _
        split
        case isTrue hk  => rfl
        case isFalse hk => rfl
      fresh      := hn
      versions   := hv
      references := hr
    }

theorem wp_create :
    (create sha256 r).wp (.returns store allow)
      (fun v t => ∃ c, r.check = .ok c ∧ Created r c s v t) s := by
  unfold create
  rw [wp_bind, Prog.wp_ofExcept]
  cases hc : r.check with
  | error e => trivial
  | ok c    => exact wp_mono (fun v t h => ⟨c, rfl, h⟩) wp_insert

end Insert

end Versions
