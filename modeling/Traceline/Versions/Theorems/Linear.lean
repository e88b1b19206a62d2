import Mathlib.Data.List.Dedup
import Traceline.Library.Except
import Traceline.Library.Machine
import Traceline.Versions.Theorems.Insert

namespace Versions

-- What happens to the tables: a call of `create`, or something that leaves the versions alone.
inductive Act
  | create (r : Request) (o : Prog.Outcome Error VersionRecord)
  | other

-- Calls in any order, each of them one serial transaction.
def calls (sha256 : List (String × Json) → String) : Machine State Act where
  init s     := s.heads = .empty ∧ s.versions = .empty ∧ s.references = .empty
  step s a t :=
    match a with
    | .create r o => (create sha256 r).Transaction store (fun _ _ => True) s t o
    | .other      => t.heads = s.heads ∧ t.versions = s.versions ∧ t.references = s.references

abbrev Key :=
  String × String × String

def Act.success (k : Key) : Act → Option (Request × VersionRecord)
  | .create r (.ok v) => if r.key = k then some (r, v) else none
  | _                 => none

-- The calls on one object that succeeded, with the versions they returned.
def succeeded (k : Key) (h : List Act) : List (Request × VersionRecord) :=
  h.filterMap (·.success k)

def VersionRecord.artifact_ids (v : VersionRecord) : List String :=
  (Request.artifact_ids? <| ((Json.obj v.content).get? "artifact_ids").getD (.arr [])).getD []

-- The versions of an object follow one another, and its head is the last of them.
structure Linear (k : Key) (s : State) (vs : List VersionRecord) : Prop where
  revisions : vs.map (·.revision) = (List.range vs.length).map (· + 1)
  previous  : vs.map (·.previous_version_id) =
    (none :: vs.map fun v => some v.version_id).dropLast
  head      : s.heads.find k = vs.getLast?.map (·.head)

-- The versions of an object, in the order in which they were inserted.
def State.versions_of (s : State) (k : Key) : List VersionRecord :=
  s.versions.rows.filter (·.key = k)

structure Consistent (h : List Act) (s : State) : Prop where
  versions   : ∀ k, s.versions_of k = (succeeded k h).map (·.2)
  linear     : ∀ k, Linear k s (s.versions_of k)
  expected   : ∀ k, (succeeded k h).map (·.1.expected_revision) =
    (List.range (succeeded k h).length).map fun n : ℕ => Json.int n
  referenced : ∀ r ∈ s.references.rows, ∃ v ∈ s.versions.rows, v.id = (r.workspace_id, r.version_id)
  artifacts  : ∀ v ∈ s.versions.rows, ∀ id, v.reference id ∈ s.references.rows ↔ id ∈ v.artifact_ids

section Check

variable {r : Request} {c : Checked}

theorem nonnegative?_eq_some_iff {j : Json} {n : ℕ} :
    Request.nonnegative? j = some n ↔ j = .int n := by
  unfold Request.nonnegative?
  split
  case h_1 n'  => simp [Int.ofNat_eq_natCast]
  case h_2 h   => simpa using fun hj => h n hj

theorem demand_eq_ok_iff {α : Type} {o : Option α} {message : String} {a : α} :
    Request.demand o message = .ok a ↔ o = some a := by
  cases o <;> simp [Request.demand]

theorem check_ok (h : r.check = .ok c) : r.content = .obj c.content ∧
    r.expected_revision = .int c.expected_revision ∧
    Request.artifact_ids? ((r.content.get? "artifact_ids").getD (.arr [])) = some c.artifact_ids := by
  obtain ⟨-, -, h⟩ := Except.bind_eq_ok_iff.mp h
  obtain ⟨content, hc, h⟩ := Except.bind_eq_ok_iff.mp h
  obtain ⟨expected, he, h⟩ := Except.bind_eq_ok_iff.mp h
  obtain ⟨-, -, h⟩ := Except.bind_eq_ok_iff.mp h
  obtain ⟨-, -, h⟩ := Except.bind_eq_ok_iff.mp h
  obtain ⟨provenance, -, h⟩ := Except.bind_eq_ok_iff.mp h
  obtain ⟨ids, hi, h⟩ := Except.bind_eq_ok_iff.mp h
  obtain rfl := Except.ok.inj h
  rw [demand_eq_ok_iff] at hc he hi
  refine ⟨?_, nonnegative?_eq_some_iff.mp he, hi⟩
  split at hc
  case isFalse => cases hc
  case isTrue  =>
    cases hj : r.content with
    | obj kvs =>
      rw [hj] at hc
      exact congrArg Json.obj <| Option.some.inj hc
    | _       =>
      rw [hj] at hc
      cases hc

end Check

section Step

variable {k : Key} {h : List Act} {s t : State} {r : Request} {c : Checked} {v : VersionRecord}
variable {vs : List VersionRecord}

theorem succeeded_snoc (a : Act) :
    succeeded k (h ++ [a]) = succeeded k h ++ (a.success k).toList := by
  cases ha : a.success k <;> simp [succeeded, ha]

-- What a head says of the versions it ends.
theorem Linear.head_eq (l : Linear k s vs) :
    ((s.heads.find k).map fun h => (h.active_version_id, h.revision)).getD (none, 0) =
      ((vs.map fun v => some v.version_id).getLast?.getD none, vs.length) := by
  rw [l.head]
  rcases List.eq_nil_or_concat' vs with rfl | ⟨init, w, rfl⟩
  · rfl
  · have hr := l.revisions
    rw [List.length_append, List.length_singleton, List.range_succ, List.map_append,
      List.map_append] at hr
    have hw : w.revision = init.length + 1 := by
      simpa using (List.append_inj' hr rfl).right
    simp [VersionRecord.head, hw]

-- The versions go on from where the head was.
theorem Linear.snoc (l : Linear k s vs) (x : Created r c s v t) (hk : r.key = k) :
    Linear k t (vs ++ [v]) ∧ c.expected_revision = vs.length := by
  have hprev := x.previous
  rw [hk, l.head_eq] at hprev
  obtain ⟨hlast, hlen⟩ := Prod.mk.inj hprev
  refine ⟨{ revisions := ?_, previous := ?_, head := ?_ }, hlen.symm⟩
  · rw [List.map_append, l.revisions, List.length_append, List.length_singleton, List.range_succ,
      List.map_append, List.map_singleton, List.map_singleton, x.revision, hlen]
  · have hids : (none :: vs.map fun v => some v.version_id).dropLast ++ [v.previous_version_id] =
        none :: vs.map fun v => some v.version_id := by
      rw [← hlast]
      refine List.dropLast_append_getLast? _ ?_
      simp [List.getLast?_cons]
    rw [List.map_append, l.previous, List.map_singleton, hids, List.map_append, ← List.cons_append,
      List.map_singleton, List.dropLast_concat]
  · rw [x.heads, if_pos hk.symm]
    simp

theorem Linear.of_heads (l : Linear k s vs) (hh : t.heads.find k = s.heads.find k) :
    Linear k t vs where
  revisions := l.revisions
  previous  := l.previous
  head      := hh.trans l.head

theorem versions_of_created (x : Created r c s v t) (k : Key) :
    t.versions_of k = s.versions_of k ++ if r.key = k then [v] else [] := by
  rw [State.versions_of, x.versions, List.filter_append, ← x.key]
  by_cases hk : v.key = k <;> simp [State.versions_of, hk]

theorem Consistent.created (i : Consistent h s) (hc : r.check = .ok c) (x : Created r c s v t) :
    Consistent (h ++ [.create r (.ok v)]) t := by
  have hsucc : ∀ k, Act.success k (.create r (.ok v)) = if r.key = k then some (r, v) else none :=
    fun _ => rfl
  obtain ⟨hcontent, hexpected, hids⟩ := check_ok hc
  have hartifacts : v.artifact_ids = c.artifact_ids := by
    rw [VersionRecord.artifact_ids, x.content, ← hcontent, hids]
    rfl
  constructor
  case versions   =>
    intro k
    rw [versions_of_created x, succeeded_snoc, i.versions, hsucc]
    split <;> simp
  case linear     =>
    intro k
    rw [versions_of_created x]
    by_cases hk : r.key = k
    · rw [if_pos hk]
      exact (i.linear k).snoc x hk |>.left
    · rw [if_neg hk, List.append_nil]
      refine (i.linear k).of_heads ?_
      rw [x.heads, if_neg (Ne.symm hk)]
  case expected   =>
    intro k
    rw [succeeded_snoc, hsucc]
    by_cases hk : r.key = k
    · have hlen := (i.linear k).snoc x hk |>.right
      rw [i.versions, List.length_map] at hlen
      rw [if_pos hk, Option.toList_some, List.map_append, i.expected, List.length_append,
        List.length_singleton, List.range_succ, List.map_append, List.map_singleton,
        List.map_singleton, hexpected, hlen]
    · simpa [hk] using i.expected k
  case referenced =>
    intro ref href
    rw [x.references, List.mem_append] at href
    rw [x.versions]
    rcases href with href | href
    · obtain ⟨v', hv', hid⟩ := i.referenced ref href
      exact ⟨v', by simp [hv'], hid⟩
    · obtain ⟨id, -, rfl⟩ := List.mem_map.mp href
      exact ⟨v, by simp, rfl⟩
  case artifacts  =>
    intro v' hv' id
    rw [x.references, List.mem_append]
    rw [x.versions, List.mem_append, List.mem_singleton] at hv'
    have hfresh : ∀ w ∈ s.versions.rows, w.id ≠ v.id := Table.find_eq_none_iff.mp x.fresh
    rcases hv' with hv' | rfl
    · have hold : v'.reference id ∉ c.artifact_ids.dedup.map v.reference := by
        intro hmem
        obtain ⟨id', -, heq⟩ := List.mem_map.mp hmem
        refine hfresh v' hv' ?_
        have hw : v.workspace_id = v'.workspace_id := congrArg VersionArtifact.workspace_id heq
        have hid : v.version_id = v'.version_id := congrArg VersionArtifact.version_id heq
        rw [VersionRecord.id, VersionRecord.id, hw, hid]
      rw [or_iff_left hold]
      exact i.artifacts v' hv' id
    · have hnone : v'.reference id ∉ s.references.rows := by
        intro hmem
        obtain ⟨w, hw, hid⟩ := i.referenced _ hmem
        exact hfresh w hw hid
      rw [or_iff_right hnone, hartifacts]
      simp only [VersionRecord.reference, List.mem_map, List.mem_dedup, VersionArtifact.mk.injEq,
        true_and, exists_eq_right]

theorem Consistent.of_unchanged {a : Act} (i : Consistent h s) (ha : ∀ k, a.success k = none)
    (hh : t.heads = s.heads) (hv : t.versions = s.versions) (hr : t.references = s.references) :
    Consistent (h ++ [a]) t := by
  have hsucc : ∀ k, succeeded k (h ++ [a]) = succeeded k h :=
    fun k => by rw [succeeded_snoc, ha, Option.toList_none, List.append_nil]
  have hof : ∀ k, t.versions_of k = s.versions_of k :=
    fun k => by rw [State.versions_of, hv, State.versions_of]
  constructor
  case versions   => exact fun k => by rw [hof, hsucc, i.versions]
  case linear     =>
    intro k
    rw [hof]
    exact (i.linear k).of_heads <| by rw [hh]
  case expected   => exact fun k => by rw [hsucc, i.expected]
  case referenced => exact hr ▸ hv ▸ i.referenced
  case artifacts  => exact hr ▸ hv ▸ i.artifacts

end Step

section Run

variable {sha256 : List (String × Json) → String} {s₀ s t : State} {h : List Act} {a : Act}

-- What one step keeps.
theorem Consistent.step (i : Consistent h s) (e : (calls sha256).step s a t) :
    Consistent (h ++ [a]) t := by
  cases a with
  | other      =>
    obtain ⟨hh, hv, hr⟩ := e
    exact i.of_unchanged (fun _ => rfl) hh hv hr
  | create r o =>
    cases o with
    | ok v    =>
      obtain ⟨c, hc, x⟩ := Prog.Transaction.ensures e wp_create
      exact i.created hc x
    | error _ | crash =>
      obtain rfl := Prog.Transaction.unchanged e rfl
      exact i.of_unchanged (fun _ => rfl) rfl rfl rfl

theorem consistent_run (hi : (calls sha256).init s₀) (x : (calls sha256).Run s₀ h s) :
    Consistent h s := by
  induction x with
  | refl        =>
    obtain ⟨hh, hv, hr⟩ := hi
    have hof : ∀ k, s₀.versions_of k = [] := fun k => by rw [State.versions_of, hv]; rfl
    constructor
    case versions   => exact fun k => by rw [hof]; rfl
    case linear     =>
      intro k
      rw [hof]
      exact ⟨rfl, rfl, by rw [hh]; rfl⟩
    case expected   => exact fun _ => rfl
    case referenced => exact fun r hmem => by rw [hr] at hmem; cases hmem
    case artifacts  => exact fun v hmem => by rw [hv] at hmem; cases hmem
  | step _ e ih => exact ih.step e

theorem list_eq_versions_of {w kind parent_id : String}
    (l : Linear (w, kind, parent_id) s (s.versions_of (w, kind, parent_id))) :
    s.list w kind parent_id = s.versions_of (w, kind, parent_id) := by
  refine List.mergeSort_of_pairwise ?_
  have hlt : ((s.versions_of (w, kind, parent_id)).map (·.revision)).Pairwise (· ≤ ·) := by
    rw [l.revisions, List.pairwise_map]
    exact List.pairwise_lt_range.imp fun h => by omega
  simpa [State.versions_of, List.pairwise_map] using hlt

end Run

-- Whatever the order of the calls and wherever they stop, the versions of an object are the ones
-- that the calls that succeeded returned. They are linear, each call that succeeded expected
-- another revision, and each version references its artifacts. A call that fails changes nothing.
theorem versions_linear {sha256 : List (String × Json) → String} {s₀ s : State} {h : List Act}
    (hi : (calls sha256).init s₀) (x : (calls sha256).Run s₀ h s)
    (workspace_id kind parent_id : String) :
    Linear (workspace_id, kind, parent_id) s (s.list workspace_id kind parent_id) ∧
    s.list workspace_id kind parent_id =
      (succeeded (workspace_id, kind, parent_id) h).map (·.2) ∧
    ((succeeded (workspace_id, kind, parent_id) h).map (·.1.expected_revision)).Nodup ∧
    (∀ v ∈ s.list workspace_id kind parent_id, ∀ id,
      v.reference id ∈ s.references.rows ↔ id ∈ v.artifact_ids) ∧
    ∀ r o t, (calls sha256).step s (.create r o) t → o.ok? = none → t = s := by
  have i := consistent_run hi x
  have l := i.linear (workspace_id, kind, parent_id)
  rw [list_eq_versions_of l]
  refine ⟨l, i.versions _, ?_, fun v hv => ?_, fun r o t e ho => ?_⟩
  · rw [i.expected]
    exact List.nodup_range.map fun n m hnm => by simpa using hnm
  · exact i.artifacts v <| List.mem_of_mem_filter hv
  · exact Prog.Transaction.unchanged e ho

namespace Sample

def digest (_ : List (String × Json)) : String :=
  "digest"

def request (artifact : String) (expected_revision : Int) : Request where
  kind              := "dataset"
  parent_id         := "d"
  content           := .obj [("artifact_ids", .arr [.str artifact, .str artifact])]
  expected_revision := .int expected_revision
  actor             := ⟨"a", "w", .editor⟩

def empty : State where
  parents    := [⟨.datasets, "w", "d"⟩]
  artifacts  := [("w", "x"), ("w", "y")]
  heads      := .empty
  versions   := .empty
  references := .empty

-- A call that is cut after some statements.
def call (r : Request) (version_id : String) (n : ℕ) (s : State) :
    State × Prog.Outcome Error VersionRecord :=
  (create digest r).transact store (fun _ => version_id) n s

def one : State :=
  (call (request "x" 0) "v1" 20 empty).1

def two : State :=
  (call (request "y" 1) "v2" 20 one).1

-- One call dies after its version was inserted, and one comes too late.
def acts : List Act := [
  .create (request "x" 0) (call (request "x" 0) "v0" 8 empty).2,
  .create (request "x" 0) (call (request "x" 0) "v1" 20 empty).2,
  .create (request "y" 0) (call (request "y" 0) "v3" 20 one).2,
  .create (request "y" 1) (call (request "y" 1) "v2" 20 one).2
]

theorem call_step (r : Request) (version_id : String) (n : ℕ) (s : State) :
    (calls digest).step s (.create r (call r version_id n s).2) (call r version_id n s).1 :=
  Prog.Transaction.of_transact (M := store) (fun _ => trivial) (create digest r) n s

theorem run : (calls digest).Run empty acts two :=
  have e₁ : (calls digest).Run empty _ empty := .single <| call_step (request "x" 0) "v0" 8 empty
  have e₃ : (calls digest).Run empty _ one :=
    (e₁.step <| call_step (request "x" 0) "v1" 20 empty).step <|
      call_step (request "y" 0) "v3" 20 one
  e₃.step <| call_step (request "y" 1) "v2" 20 one

end Sample

open Sample in
theorem versions_linear_after_four_calls :
    (succeeded ("w", "dataset", "d") acts).length = 2 ∧
    Linear ("w", "dataset", "d") two (two.list "w" "dataset" "d") :=
  ⟨by decide, (versions_linear ⟨rfl, rfl, rfl⟩ run "w" "dataset" "d").left⟩

end Versions
