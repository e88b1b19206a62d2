import Mathlib.Data.Prod.Lex
import Mathlib.Data.String.Basic
import Mathlib.Logic.Relation
import Traceline.Library.Keyset
import Traceline.Library.Table

-- The pages of the list of runs.
namespace Storage

-- A row of `runs`, with the columns that no listing looks at as one.
structure RunRow (ρ : Type) where
  run_id       : String
  workspace_id : String
  created_at   : String
  record       : ρ
  deriving DecidableEq, Repr

abbrev Runs (ρ : Type) := Table (RunRow.run_id (ρ := ρ))

inductive CursorError
  | value_error (message : String)
  deriving DecidableEq, Repr

variable {ρ : Type}

namespace RunRow

-- ORDER BY created_at DESC, run_id DESC
def newer (r r' : RunRow ρ) : Bool :=
  r'.created_at < r.created_at || r'.created_at = r.created_at && r'.run_id ≤ r.run_id

-- created_at < ? OR (created_at = ? AND run_id < ?)
def behind (cursor : String × String) (r : RunRow ρ) : Bool :=
  r.created_at < cursor.1 || r.created_at = cursor.1 && r.run_id < cursor.2

def place (r : RunRow ρ) : String ×ₗ String :=
  toLex (r.created_at, r.run_id)

end RunRow

namespace Runs

section Listing

variable (t : Runs ρ) (workspace_id : String)

def of_workspace : List (RunRow ρ) :=
  t.rows.filter (·.workspace_id = workspace_id)

-- All runs, in the order of the listing.
def listing : List (RunRow ρ) :=
  (t.of_workspace workspace_id).mergeSort RunRow.newer

-- The rows that a cursor selects, before the LIMIT.
def select_behind (cursor : Option (String × String)) : List (RunRow ρ) :=
  ((t.of_workspace workspace_id).filter fun r => cursor.all (r.behind ·)).mergeSort RunRow.newer

def list_runs_cursor (limit : Int) (cursor : Option (String × String)) :
    Except CursorError (List (RunRow ρ) × Option (String × String)) :=
  if ¬(1 ≤ limit ∧ limit ≤ 500) then .error (.value_error "limit must be within 1..500")
  else
    let limit := limit.toNat
    let rows := (t.select_behind workspace_id cursor).take (limit + 1)
    let page := rows.take limit
    let next_cursor :=
      if rows.length > limit then page.getLast?.map fun last => (last.created_at, last.run_id)
      else none
    .ok (page, next_cursor)

end Listing

-- What may happen between two pages: a run is created, or some are updated, which changes neither
-- where they are listed nor for whom.
inductive Change : Runs ρ → Runs ρ → Prop
  | created (r : RunRow ρ) : t.insert r = some t' → Change t t'
  | updated (p : RunRow ρ → Bool) (f : RunRow ρ → ρ) :
    Change t (t.update p (fun r => { r with record := f r }) fun _ => rfl)

-- Following the cursors to the end, with the limits of the pages.
inductive Pages (workspace_id : String) :
    Runs ρ → Option (String × String) → List Int → List (RunRow ρ) → Prop
  | last : list_runs_cursor t workspace_id limit cursor = .ok (page, none) →
    Pages workspace_id t cursor [limit] page
  | next : list_runs_cursor t workspace_id limit cursor = .ok (page, some c) →
    Relation.ReflTransGen Change t t' → Pages workspace_id t' (some c) limits rest →
    Pages workspace_id t cursor (limit :: limits) (page ++ rest)

variable {t t' : Runs ρ} {workspace_id : String} {limit : Int} {cursor c : Option (String × String)}
variable {n : ℕ}
variable {limits : List Int} {page result : List (RunRow ρ)} {r : RunRow ρ}

def places (t : Runs ρ) (workspace_id : String) : List (String ×ₗ String) :=
  (t.of_workspace workspace_id).map RunRow.place

theorem places_nodup : (t.places workspace_id).Nodup := by
  have h : ((t.of_workspace workspace_id).map (·.run_id)).Nodup :=
    t.nodup.sublist <| List.filter_sublist.map _
  exact .of_map (fun p => (ofLex p).2) <| by simpa [places, Function.comp_def, RunRow.place] using h

theorem place_lt_iff {p : String × String} : r.behind p = true ↔ r.place < toLex p := by
  simp [RunRow.behind, RunRow.place, Prod.Lex.toLex_lt_toLex]

theorem newer_eq (r r' : RunRow ρ) : r.newer r' = decide (r'.place ≤ r.place) := by
  rw [Bool.eq_iff_iff]
  simp [RunRow.newer, RunRow.place, Prod.Lex.toLex_le_toLex]

theorem map_newer_sort (l : List (RunRow ρ)) :
    (l.mergeSort RunRow.newer).map RunRow.place = Keyset.descending (l.map RunRow.place) :=
  List.map_mergeSort fun a _ b _ => newer_eq a b

theorem map_behind (l : List (RunRow ρ)) :
    (l.filter fun r => cursor.all (r.behind ·)).map RunRow.place =
      (l.map RunRow.place).filter fun k => (cursor.map toLex).all (k < ·) := by
  rw [List.filter_map]
  congr 1
  refine List.filter_congr fun r _ => ?_
  cases cursor with
  | none   => rfl
  | some p =>
    rw [Bool.eq_iff_iff]
    simp [place_lt_iff]

-- The places behind a cursor, in order.
def rest (t : Runs ρ) (workspace_id : String) (cursor : Option (String × String)) :
    List (String ×ₗ String) :=
  Keyset.rest (cursor.map toLex) (t.places workspace_id)

-- What a page and its cursor say of the places.
theorem list_runs_cursor_ok
    (h : t.list_runs_cursor workspace_id limit cursor = .ok (page, c)) :
    (∀ r ∈ page, r ∈ t.of_workspace workspace_id) ∧
    page.map RunRow.place = (t.rest workspace_id cursor).take limit.toNat ∧
    match c with
    | none   => (t.rest workspace_id cursor).length ≤ limit.toNat
    | some p => ((t.rest workspace_id cursor).take limit.toNat).getLast? = some (toLex p) := by
  have hplaces : (t.select_behind workspace_id cursor).map RunRow.place =
      t.rest workspace_id cursor := by
    rw [select_behind, map_newer_sort, map_behind]
    rfl
  have hlength : (t.select_behind workspace_id cursor).length =
      (t.rest workspace_id cursor).length := by
    rw [← hplaces, List.length_map]
  unfold list_runs_cursor at h
  split at h
  case isTrue          => cases h
  case isFalse hlimit =>
    rw [Except.ok.injEq, Prod.mk.injEq, List.take_take, Nat.min_eq_left (Nat.le_succ _)] at h
    obtain ⟨rfl, hc⟩ := h
    refine ⟨fun r hr => ?_, by rw [List.map_take, hplaces], ?_⟩
    · have := List.mem_of_mem_take hr
      rw [select_behind, List.mem_mergeSort] at this
      exact List.mem_of_mem_filter this
    rw [List.length_take] at hc
    split at hc
    case isFalse hle =>
      subst hc
      dsimp only
      omega
    case isTrue hlt  =>
      have hlast : ((t.select_behind workspace_id cursor).take limit.toNat).getLast?.map
          RunRow.place = ((t.rest workspace_id cursor).take limit.toNat).getLast? := by
        rw [← hplaces, ← List.map_take, List.getLast?_map]
      rw [← hlast]
      cases hp : ((t.select_behind workspace_id cursor).take limit.toNat).getLast? with
      | some last =>
        rw [hp] at hc
        cases hc
        rfl
      | none      =>
        rw [List.getLast?_eq_none_iff, List.take_eq_nil_iff] at hp
        rcases hp with hp | hp
        · omega
        · simp [hp] at hlt

theorem Change.of_workspace (h : Change t t') (hr : r ∈ t.of_workspace workspace_id) :
    ∃ r' ∈ t'.of_workspace workspace_id, r'.run_id = r.run_id ∧ r'.created_at = r.created_at := by
  obtain ⟨hr, hws⟩ := List.mem_filter.mp hr
  cases h with
  | created r₀ h =>
    refine ⟨r, List.mem_filter.mpr ⟨?_, hws⟩, rfl, rfl⟩
    rw [(Table.insert_eq_some_iff.mp h).right]
    exact List.mem_append_left _ hr
  | updated p f  =>
    refine ⟨if p r then { r with record := f r } else r, ?_, ?_, ?_⟩
    · refine List.mem_filter.mpr ⟨List.mem_map_of_mem hr, ?_⟩
      split <;> exact hws
    · split <;> rfl
    · split <;> rfl

-- A run keeps its place, whatever happens between two pages.
theorem changes_of_workspace (h : Relation.ReflTransGen Change t t')
    (hr : r ∈ t.of_workspace workspace_id) :
    ∃ r' ∈ t'.of_workspace workspace_id, r'.run_id = r.run_id ∧ r'.created_at = r.created_at := by
  induction h with
  | refl        => exact ⟨r, hr, rfl, rfl⟩
  | tail _ h hi =>
    obtain ⟨r₁, hr₁, hid, hat⟩ := hi
    obtain ⟨r₂, hr₂, hid', hat'⟩ := h.of_workspace hr₁
    exact ⟨r₂, hr₂, hid'.trans hid, hat'.trans hat⟩

theorem changes_places (h : Relation.ReflTransGen Change t t') :
    t.places workspace_id ⊆ t'.places workspace_id := by
  intro k hk
  obtain ⟨r, hr, rfl⟩ := List.mem_map.mp hk
  obtain ⟨r', hr', hid, hat⟩ := changes_of_workspace h hr
  exact List.mem_map.mpr ⟨r', hr', by rw [RunRow.place, RunRow.place, hid, hat]⟩

-- The pages walk down the places.
theorem Pages.walk (p : Pages workspace_id t cursor limits result) :
    Keyset.Walk (t.places workspace_id) (cursor.map toLex) (result.map RunRow.place) := by
  induction p with
  | last h          =>
    obtain ⟨_, hpage, hlast⟩ := list_runs_cursor_ok h
    rw [hpage, List.take_of_length_le hlast]
    exact .last
  | next h hc _ hi =>
    obtain ⟨_, hpage, hlast⟩ := list_runs_cursor_ok h
    rw [List.map_append, hpage]
    exact .next _ hlast (changes_places hc) places_nodup hi

theorem Pages.mem (p : Pages workspace_id t cursor limits result) (hr : r ∈ result) :
    ∃ t', Relation.ReflTransGen Change t t' ∧ r ∈ t'.of_workspace workspace_id := by
  induction p with
  | last h          => exact ⟨_, .refl, (list_runs_cursor_ok h).left r hr⟩
  | next h hc _ hi =>
    rcases List.mem_append.mp hr with hr | hr
    · exact ⟨_, .refl, (list_runs_cursor_ok h).left r hr⟩
    · obtain ⟨t', ht', hr⟩ := hi hr
      exact ⟨t', hc.trans ht', hr⟩

def run_ids (t : Runs ρ) (workspace_id : String) : List String :=
  (t.of_workspace workspace_id).map (·.run_id)

-- A listed run is one that was there exactly if its id was.
theorem Pages.place_mem_iff (p : Pages workspace_id t cursor limits result) (hr : r ∈ result) :
    r.place ∈ t.places workspace_id ↔ r.run_id ∈ t.run_ids workspace_id := by
  constructor
  case mp  =>
    intro h
    obtain ⟨r₀, hr₀, hplace⟩ := List.mem_map.mp h
    exact List.mem_map.mpr ⟨r₀, hr₀, congrArg (fun k => (ofLex k).2) hplace⟩
  case mpr =>
    intro h
    obtain ⟨r₀, hr₀, hid⟩ := List.mem_map.mp h
    obtain ⟨t', ht', hr'⟩ := p.mem hr
    obtain ⟨r₁, hr₁, hid₁, hat₁⟩ := changes_of_workspace ht' hr₀
    have hsame : r₁ = r :=
      t'.eq_of_key_eq (List.mem_of_mem_filter hr₁) (List.mem_of_mem_filter hr') (hid₁.trans hid)
    subst hsame
    exact List.mem_map.mpr ⟨r₀, hr₀, by rw [RunRow.place, RunRow.place, hid₁, hat₁]⟩

theorem Pages.complete (p : Pages workspace_id t none limits result) :
    (result.filter (·.run_id ∈ t.run_ids workspace_id)).map (·.run_id) =
      (t.listing workspace_id).map (·.run_id) := by
  have hold (k : String ×ₗ String) :
      decide (k ∈ t.places workspace_id) = true ↔ k ∈ t.places workspace_id := decide_eq_true_iff
  have h := p.walk.complete places_nodup hold
  have hfilter : (result.map RunRow.place).filter (· ∈ t.places workspace_id) =
      (result.filter (·.run_id ∈ t.run_ids workspace_id)).map RunRow.place := by
    rw [List.filter_map]
    congr 1
    exact List.filter_congr fun r hr => decide_eq_decide.mpr <| p.place_mem_iff hr
  have hlisting : Keyset.descending (t.places workspace_id) =
      (t.listing workspace_id).map RunRow.place := (map_newer_sort _).symm
  rw [hfilter, hlisting] at h
  have := congrArg (List.map fun k => (ofLex k).2) h
  simpa [Function.comp_def, RunRow.place] using this

-- Where nothing changes, the cursors come to an end.
theorem exists_pages {limits : ℕ → Int} (hlimits : ∀ i, 1 ≤ limits i ∧ limits i ≤ 500) :
    ∃ n result, Pages workspace_id t cursor ((List.range n).map limits) result := by
  generalize hm : (t.rest workspace_id cursor).length = m
  induction m using Nat.strong_induction_on generalizing limits cursor with
  | _ m hi =>
    cases hpage : t.list_runs_cursor workspace_id (limits 0) cursor with
    | error e =>
      rw [list_runs_cursor, if_neg (not_not_intro (hlimits 0))] at hpage
      cases hpage
    | ok pair =>
      obtain ⟨page, c⟩ := pair
      obtain ⟨_, _, hlast⟩ := list_runs_cursor_ok hpage
      cases c with
      | none   => exact ⟨1, page, .last hpage⟩
      | some c =>
        have hdrop : t.rest workspace_id (some c) = (t.rest workspace_id cursor).drop _ :=
          Keyset.rest_some places_nodup hlast
        have hpos := (hlimits 0).left
        have hne : (t.rest workspace_id cursor) ≠ [] := by
          intro hnil
          rw [hnil, List.take_nil] at hlast
          cases hlast
        have hlen := List.length_pos_iff.mpr hne
        obtain ⟨n, result, p⟩ := @hi _ (by rw [hdrop, List.length_drop]; omega) (some c)
          (fun i => limits (i + 1)) (fun i => hlimits _) rfl
        refine ⟨n + 1, page ++ result, ?_⟩
        rw [List.range_succ_eq_map, List.map_cons, List.map_map]
        exact .next hpage .refl p

-- Following the cursors comes to an end, and lists each run that was there once and in order,
-- whatever runs are created in between.
theorem pages_complete :
    (∀ limits result, Pages workspace_id t none limits result →
      (result.filter (·.run_id ∈ t.run_ids workspace_id)).map (·.run_id) =
        (t.listing workspace_id).map (·.run_id)) ∧
    ((t.listing workspace_id).map (·.run_id)).Nodup ∧
    ∀ cursor (limits : ℕ → Int), (∀ i, 1 ≤ limits i ∧ limits i ≤ 500) →
      ∃ n result, Pages workspace_id t cursor ((List.range n).map limits) result := by
  refine ⟨fun _ _ p => p.complete, ?_, fun _ _ h => exists_pages h⟩
  have h : (t.run_ids workspace_id).Nodup := t.nodup.sublist <| List.filter_sublist.map _
  exact (List.Perm.map _ <| List.mergeSort_perm ..).nodup_iff.mpr h

-- Two runs of one moment.
def tied : Runs Unit where
  rows  := [⟨"a", "workspace", "2026-01-01T00:00:00+00:00", ()⟩,
    ⟨"b", "workspace", "2026-01-01T00:00:00+00:00", ()⟩]
  nodup := by decide

theorem pages_complete_tied :
    ∃ limits result, Pages "workspace" tied none limits result ∧
      (result.filter (·.run_id ∈ tied.run_ids "workspace")).map (·.run_id) =
        (tied.listing "workspace").map (·.run_id) := by
  obtain ⟨hcomplete, _, hends⟩ := @pages_complete Unit tied "workspace"
  obtain ⟨n, result, p⟩ := hends none (fun _ => 1) fun _ => by decide
  exact ⟨_, result, p, hcomplete _ _ p⟩

end Runs

end Storage
