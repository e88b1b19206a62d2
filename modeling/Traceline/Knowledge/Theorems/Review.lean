import Traceline.Knowledge.Store
import Traceline.Library.Machine

namespace Knowledge

variable {st : Static} {py : Python} {p p' : Project} {actor : Actor} {view : View}
variable {fresh fresh' : Except Error String} {log : Confirmed} {id : String}
variable {facts : List Fact} {fact : Fact} {report previous : Report} {record : Record}
variable {discovered : DiscoveryReport}

section Discovery

-- A fact of which no user has said anything.
structure Fresh (fact : Fact) : Prop where
  status  : fact.status.reviewed = false
  summary : fact.summary = none

variable {source_version_id path name kind confidence : String} {start stop : ℕ}

theorem Fresh.of_status {status : FactStatus} (h : status.reviewed = false) :
    Fresh (_fact st source_version_id kind name status confidence path start stop) :=
  ⟨h, rfl⟩

theorem fresh_framework {lineno : ℕ}
    (h : fact ∈ framework_facts st source_version_id path lineno name) : Fresh fact := by
  rw [framework_facts] at h
  split at h
  case isTrue  => exact List.mem_singleton.mp h ▸ .of_status rfl
  case isFalse => cases h

theorem fresh_node {node : Node} (h : fact ∈ node_facts st source_version_id path node) :
    Fresh fact := by
  cases node with
  | import_ names lineno =>
    obtain ⟨name, -, h⟩ := List.mem_flatMap.mp h
    exact fresh_framework h
  | import_from module lineno =>
    cases module with
    | none        => cases h
    | some module =>
      rw [node_facts] at h
      split at h
      case isTrue  => cases h
      case isFalse => exact fresh_framework h
  | assign targets value lineno =>
    cases value with
    | none       => cases h
    | some value =>
      rw [node_facts] at h
      split at h
      case isTrue  => exact List.mem_singleton.mp h ▸ .of_status rfl
      case isFalse => cases h
  | class_def name bases lineno =>
    rw [node_facts] at h
    split at h
    case isTrue  => exact List.mem_singleton.mp h ▸ .of_status rfl
    case isFalse => cases h
  | return_dict => cases h
  | other       => cases h

theorem fresh_entrypoint {func : Expr} {lineno : ℕ}
    (h : fact ∈ entrypoint_facts st source_version_id path func lineno) : Fresh fact := by
  rw [entrypoint_facts] at h
  cases hname : _call_name func with
  | none      =>
    rw [hname] at h
    cases h
  | some name =>
    rw [hname] at h
    dsimp only at h
    split at h
    case isTrue  => exact List.mem_singleton.mp h ▸ .of_status rfl
    case isFalse => cases h

theorem fresh_stmt {stmt : Stmt} (h : fact ∈ stmt_facts st source_version_id path stmt) :
    Fresh fact := by
  cases stmt with
  | call func lineno       => exact fresh_entrypoint h
  | if_compare left calls  =>
    rw [stmt_facts] at h
    split at h
    case isTrue  =>
      obtain ⟨c, -, h⟩ := List.mem_flatMap.mp h
      exact fresh_entrypoint h
    case isFalse => cases h
  | other                  => cases h

theorem fresh_candidate {candidate : Bool}
    (h : fact ∈ if candidate then
      [_fact st source_version_id kind name .observed_static confidence path start stop] else []) :
    Fresh fact := by
  split at h
  case isTrue  => exact List.mem_singleton.mp h ▸ .of_status rfl
  case isFalse => cases h

theorem fresh_file {text : String} (h : fact ∈ (file_facts st source_version_id path text).1) :
    Fresh fact := by
  rw [file_facts] at h
  split at h
  case isTrue  => cases h
  case isFalse =>
    split at h
    case isTrue  => exact fresh_candidate h
    case isFalse =>
      cases hparse : st.parse text path with
      | none      =>
        rw [hparse] at h
        rcases List.mem_append.mp h with h | h
        · exact fresh_candidate h
        · exact List.mem_singleton.mp h ▸ .of_status rfl
      | some tree =>
        rw [hparse] at h
        simp only [List.mem_append, List.mem_flatMap, List.mem_map] at h
        rcases h with ((h | ⟨node, -, h⟩) | ⟨tool, -, h⟩) | ⟨stmt, -, h⟩
        · exact fresh_candidate h
        · exact fresh_node h
        · exact h ▸ .of_status rfl
        · exact fresh_stmt h

theorem mem_of_by_fact_id (h : fact ∈ by_fact_id facts) : fact ∈ facts :=
  (Table.mem_of_foldl_upsert h).resolve_left List.not_mem_nil

theorem rows_by_fact_id (h : (facts.map Fact.fact_id).Nodup) : (by_fact_id facts).rows = facts :=
  Table.rows_foldl_upsert h

-- What is discovered: facts of their own ids.
structure Discovered (discovered : DiscoveryReport) : Prop where
  nodup : (discovered.facts.map Fact.fact_id).Nodup
  fresh : ∀ fact ∈ discovered.facts, Fresh fact

theorem discovered_discover {files : List (String × String)} :
    Discovered (discover st source_version_id files) where
  nodup := (by_fact_id _).nodup
  fresh := by
    intro fact h
    obtain ⟨found, hfound, h⟩ := List.mem_flatMap.mp <| mem_of_by_fact_id h
    obtain ⟨file, -, hfile⟩ := List.mem_map.mp hfound
    exact fresh_file (hfile ▸ h)

theorem Project.discovered_of_ok (h : p.discovered st = .ok discovered) : Discovered discovered := by
  rw [Project.discovered] at h
  cases hsource : p.source with
  | none        =>
    rw [hsource] at h
    cases h
  | some source =>
    rw [hsource] at h
    obtain ⟨files, -, h⟩ := Except.bind_eq_ok_iff.mp h
    exact Except.ok.inj h ▸ discovered_discover

end Discovery

section Confirmations

def Named (log : Confirmed) (id : String) : Prop :=
  ∃ summary, (id, summary) ∈ log

-- The last summary that a user gave.
def last_summary (log : Confirmed) (id : String) : Option String :=
  log.reverse.findSome? fun c => if c.1 = id then c.2 else none

theorem last_summary_snoc {c : String × Option String} : last_summary (log ++ [c]) id =
    if c.1 = id then c.2.or (last_summary log id) else last_summary log id := by
  rw [last_summary, List.reverse_append, List.reverse_singleton, List.singleton_append,
    List.findSome?_cons, last_summary]
  by_cases hc : c.1 = id
  · rw [if_pos hc, if_pos hc]
    cases c.2 <;> rfl
  · rw [if_neg hc, if_neg hc]

theorem named_snoc_iff {c : String × Option String} :
    Named (log ++ [c]) id ↔ Named log id ∨ c.1 = id := by
  constructor
  · intro ⟨summary, h⟩
    rcases List.mem_append.mp h with h | h
    · exact .inl ⟨summary, h⟩
    · exact .inr <| by rw [← List.mem_singleton.mp h]
  · intro h
    rcases h with ⟨summary, h⟩ | h
    · exact ⟨summary, List.mem_append_left _ h⟩
    · exact ⟨c.2, List.mem_append_right _ <| h ▸ List.mem_singleton.mpr rfl⟩

theorem last_summary_of_not_named (h : ¬ Named log id) : last_summary log id = none := by
  refine List.findSome?_eq_none_iff.mpr fun c hc => ?_
  refine if_neg fun hid => h ⟨c.2, ?_⟩
  exact hid ▸ List.mem_reverse.mp hc

end Confirmations

-- The flag is exact, and what users have confirmed still appears.
structure Kept (report : Report) (log : Confirmed) : Prop where
  flag  : report.review_needed ↔ ∃ fact ∈ report.facts, fact.status = .review_needed
  facts : ∀ id, Named log id → ∃ fact ∈ report.facts, fact.fact_id = id ∧
    (fact.status = .user_confirmed ∧ fact.summary = last_summary log id ∨
      fact.status = .review_needed)

-- Exactly the facts that users have confirmed bear what they said.
structure Tracked (log : Confirmed) (facts : List Fact) : Prop where
  nodup   : (facts.map Fact.fact_id).Nodup
  present : ∀ id, Named log id → ∃ fact ∈ facts, fact.fact_id = id
  status  : ∀ fact ∈ facts, Named log fact.fact_id ↔ fact.status.reviewed
  summary : ∀ fact ∈ facts, fact.summary = last_summary log fact.fact_id

def Flagged (report : Report) : Prop :=
  report.review_needed ↔ ∃ fact ∈ report.facts, fact.status = .review_needed

theorem reviewed_iff {status : FactStatus} :
    status.reviewed ↔ status = .user_confirmed ∨ status = .review_needed := by
  cases status <;> simp [FactStatus.reviewed]

theorem Tracked.kept (h : Tracked log report.facts) (hflag : Flagged report) : Kept report log where
  flag  := hflag
  facts := by
    intro id hid
    obtain ⟨fact, hfact, rfl⟩ := h.present id hid
    refine ⟨fact, hfact, rfl, ?_⟩
    rcases reviewed_iff.mp <| (h.status fact hfact).mp hid with hstatus | hstatus
    · exact .inl ⟨hstatus, h.summary fact hfact⟩
    · exact .inr hstatus

section Merging

variable {prior_facts : Table Fact.fact_id} {prior : Fact}

@[simp]
theorem merge_fact_fact_id : (merge_fact prior_facts fact).fact_id = fact.fact_id := by
  rw [merge_fact]
  cases prior_facts.find fact.fact_id with
  | none       => rfl
  | some prior =>
    dsimp only
    split <;> rfl

theorem merge_fact_status (h : Fresh fact) :
    (merge_fact prior_facts fact).status ≠ .review_needed := by
  have hstatus : fact.status ≠ .review_needed := fun heq => by
    have := h.status
    rw [heq] at this
    cases this
  rw [merge_fact]
  cases prior_facts.find fact.fact_id with
  | none       => exact hstatus
  | some prior =>
    dsimp only
    split
    case isTrue  => exact FactStatus.noConfusion
    case isFalse => exact hstatus

theorem mem_missing_facts_iff : prior ∈ missing_facts discovered prior_facts ↔
    prior ∈ prior_facts ∧ prior.fact_id ∉ discovered.facts.map Fact.fact_id ∧
      prior.status.reviewed := by
  rw [missing_facts, List.mem_filter, Bool.and_eq_true, Bool.not_eq_true', ← Bool.not_eq_true,
    List.contains_iff_mem]
  rfl

-- The flag is exact whatever was there before.
theorem flagged_merge (hd : Discovered discovered) {previous : Option Report} :
    Flagged (_merge discovered previous) := by
  have hflag : (_merge discovered previous).review_needed = true ↔
      missing_facts discovered (by_fact_id ((previous.map Report.facts).getD [])) ≠ [] :=
    decide_eq_true_iff
  rw [Flagged, hflag]
  constructor
  · intro hne
    obtain ⟨prior, hprior⟩ := List.exists_mem_of_ne_nil _ hne
    exact ⟨keep_fact prior, List.mem_append_right _ <| List.mem_map_of_mem hprior, rfl⟩
  · intro ⟨fact, hfact, hstatus⟩ hnil
    rcases List.mem_append.mp hfact with hfact | hfact
    · obtain ⟨found, hfound, rfl⟩ := List.mem_map.mp hfact
      exact merge_fact_status (hd.fresh found hfound) hstatus
    · rw [hnil] at hfact
      cases hfact

variable (h : Tracked log facts) (hd : Discovered discovered)

include h

theorem Tracked.find_iff : (by_fact_id facts).find id = some prior ↔
    prior ∈ facts ∧ prior.fact_id = id := by
  rw [Table.find_eq_some_iff, Table.mem_rows, rows_by_fact_id h.nodup]

theorem Tracked.find_eq_none (hfind : (by_fact_id facts).find id = none) :
    ¬ Named log id := by
  intro hid
  obtain ⟨prior, hprior, hkey⟩ := h.present id hid
  have hsome := h.find_iff.mpr ⟨hprior, hkey⟩
  rw [hfind] at hsome
  cases hsome

include hd

-- A discovered fact that is not under review bears what users said of it.
theorem Tracked.merge_fact (hfact : fact ∈ discovered.facts)
    (hreview : ∀ prior ∈ facts, prior.status = .review_needed →
      prior.fact_id ≠ fact.fact_id) :
    (Named log fact.fact_id ↔
        (Knowledge.merge_fact (by_fact_id facts) fact).status.reviewed) ∧
      (Knowledge.merge_fact (by_fact_id facts) fact).summary =
        last_summary log fact.fact_id := by
  have hfresh := hd.fresh fact hfact
  have hplain : ¬ Named log fact.fact_id → (Named log fact.fact_id ↔ fact.status.reviewed) ∧
      fact.summary = last_summary log fact.fact_id := fun hnot => by
    rw [hfresh.status, hfresh.summary, last_summary_of_not_named hnot]
    exact ⟨iff_of_false hnot Bool.false_ne_true, rfl⟩
  rw [Knowledge.merge_fact]
  cases hfind : (by_fact_id facts).find fact.fact_id with
  | none       => exact hplain <| h.find_eq_none hfind
  | some prior =>
    obtain ⟨hprior, hid⟩ := h.find_iff.mp hfind
    have hstatus := h.status prior hprior
    have hsummary := h.summary prior hprior
    rw [hid] at hstatus hsummary
    dsimp only
    split
    case isTrue hconfirmed =>
      rw [hconfirmed] at hstatus
      exact ⟨hstatus, by rw [hsummary, hfresh.summary, Option.or_none]⟩
    case isFalse hconfirmed =>
      refine hplain fun hnamed => ?_
      rcases reviewed_iff.mp <| hstatus.mp hnamed with heq | heq
      · exact hconfirmed heq
      · exact hreview prior hprior heq hid

theorem Tracked.merge (hreview : ∀ prior ∈ facts, prior.status = .review_needed →
    prior.fact_id ∉ discovered.facts.map Fact.fact_id) :
    Tracked log (discovered.facts.map (Knowledge.merge_fact (by_fact_id facts)) ++
      (missing_facts discovered (by_fact_id facts)).map keep_fact) := by
  have hmissing : ∀ prior, prior ∈ missing_facts discovered (by_fact_id facts) ↔
      prior ∈ facts ∧ prior.fact_id ∉ discovered.facts.map Fact.fact_id ∧
        prior.status.reviewed := fun prior => by
    rw [mem_missing_facts_iff, Table.mem_rows, rows_by_fact_id h.nodup]
  have hids : (discovered.facts.map (Knowledge.merge_fact (by_fact_id facts)) ++
      (missing_facts discovered (by_fact_id facts)).map keep_fact).map Fact.fact_id =
        discovered.facts.map Fact.fact_id ++
          (missing_facts discovered (by_fact_id facts)).map Fact.fact_id := by
    rw [List.map_append, List.map_map, List.map_map]
    exact congrArg₂ _ (List.map_congr_left fun _ _ => merge_fact_fact_id) rfl
  refine ⟨hids ▸ List.nodup_append.mpr ⟨hd.nodup, ?_, ?_⟩, fun id hid => ?_, ?_, ?_⟩
  · rw [missing_facts]
    exact (by_fact_id facts).nodup.sublist <| List.filter_sublist.map _
  · intro a ha b hb heq
    obtain ⟨prior, hprior, rfl⟩ := List.mem_map.mp hb
    exact ((hmissing prior).mp hprior).right.left <| heq ▸ ha
  · obtain ⟨prior, hprior, hkey⟩ := h.present id hid
    have hmem : id ∈ discovered.facts.map Fact.fact_id ++
        (missing_facts discovered (by_fact_id facts)).map Fact.fact_id := by
      by_cases hfound : id ∈ discovered.facts.map Fact.fact_id
      · exact List.mem_append_left _ hfound
      · have hreviewed := (h.status prior hprior).mp (hkey ▸ hid)
        refine List.mem_append_right _ <| List.mem_map.mpr ⟨prior, ?_, hkey⟩
        exact (hmissing prior).mpr ⟨hprior, hkey ▸ hfound, hreviewed⟩
    rw [← hids] at hmem
    exact List.mem_map.mp hmem
  · intro fact hfact
    rcases List.mem_append.mp hfact with hfact | hfact
    · obtain ⟨found, hfound, rfl⟩ := List.mem_map.mp hfact
      rw [merge_fact_fact_id]
      exact (h.merge_fact hd hfound fun prior hprior hstatus heq =>
        hreview prior hprior hstatus <| heq ▸ List.mem_map_of_mem hfound).left
    · obtain ⟨prior, hprior, rfl⟩ := List.mem_map.mp hfact
      obtain ⟨hprior, -, hreviewed⟩ := (hmissing prior).mp hprior
      exact iff_of_true ((h.status prior hprior).mpr hreviewed) rfl
  · intro fact hfact
    rcases List.mem_append.mp hfact with hfact | hfact
    · obtain ⟨found, hfound, rfl⟩ := List.mem_map.mp hfact
      rw [merge_fact_fact_id]
      exact (h.merge_fact hd hfound fun prior hprior hstatus heq =>
        hreview prior hprior hstatus <| heq ▸ List.mem_map_of_mem hfound).right
    · obtain ⟨prior, hprior, rfl⟩ := List.mem_map.mp hfact
      exact h.summary prior ((hmissing prior).mp hprior).left

end Merging

section Correcting

variable {table table' : Table Fact.fact_id} {correction : Json} {corrections : List Json}
variable {summary : Option String}

@[simp]
theorem confirm_fact_fact_id : (confirm_fact actor summary fact).fact_id = fact.fact_id := by
  cases summary <;> rfl

@[simp]
theorem confirm_fact_status : (confirm_fact actor summary fact).status = .user_confirmed := by
  cases summary <;> rfl

@[simp]
theorem confirm_fact_summary :
    (confirm_fact actor summary fact).summary = summary.or fact.summary := by
  cases summary <;> rfl

theorem get_fact_eq_ok {key : Option Json} (h : get_fact table key = .ok (some fact)) :
    fact ∈ table ∧ key = some (.str fact.fact_id) := by
  unfold get_fact at h
  split at h
  case h_1 fact_id =>
    obtain ⟨hfact, hid⟩ := Table.find_eq_some_iff.mp (Except.ok.inj h)
    exact ⟨hfact, by rw [hid]⟩
  case h_2 => cases h
  case h_3 => cases h
  case h_4 => cases h

theorem correct_eq_ok (h : correct py actor table correction = .ok table') :
    ∃ fact ∈ table, ∃ summary, confirmation py correction = some (fact.fact_id, summary) ∧
      table' = table.upsert (confirm_fact actor summary fact) := by
  cases correction with
  | obj kvs =>
    simp only [correct, Except.bind_eq_ok_iff] at h
    obtain ⟨_, -, found, hfound, h⟩ := h
    cases found with
    | none      => cases h
    | some fact =>
      obtain ⟨summary, hsummary, h⟩ := Except.bind_eq_ok_iff.mp h
      obtain ⟨hfact, hkey⟩ := get_fact_eq_ok hfound
      exact ⟨fact, hfact, summary, by rw [confirmation, hkey, hsummary], (Except.ok.inj h).symm⟩
  | null    => cases h
  | bool b  => cases h
  | int n   => cases h
  | float x => cases h
  | str s   => cases h
  | arr xs  => cases h

theorem Tracked.correct (h : Tracked log table.rows) (hfact : fact ∈ table) :
    Tracked (log ++ [(fact.fact_id, summary)])
      (table.upsert (confirm_fact actor summary fact)).rows where
  nodup   := (table.upsert _).nodup
  present := by
    intro id hid
    have hfind : ∃ found, (table.upsert (confirm_fact actor summary fact)).find id = some found := by
      rw [Table.find_upsert, confirm_fact_fact_id]
      split
      case isTrue     => exact ⟨_, rfl⟩
      case isFalse hne =>
        obtain ⟨found, hfound, hkey⟩ := h.present id <| (named_snoc_iff.mp hid).resolve_right hne
        exact ⟨found, Table.find_eq_some_iff.mpr ⟨hfound, hkey⟩⟩
    obtain ⟨found, hfound⟩ := hfind
    exact ⟨found, Table.find_eq_some_iff.mp hfound⟩
  status  := by
    intro found hfound
    rcases Table.mem_upsert hfound with rfl | ⟨hold, hne⟩
    · rw [confirm_fact_fact_id, confirm_fact_status]
      exact iff_of_true (named_snoc_iff.mpr <| .inr rfl) rfl
    · rw [confirm_fact_fact_id] at hne
      rw [named_snoc_iff, ← h.status found hold]
      exact or_iff_left fun heq => hne heq.symm
  summary := by
    intro found hfound
    rcases Table.mem_upsert hfound with rfl | ⟨hold, hne⟩
    · rw [last_summary_snoc, confirm_fact_fact_id, confirm_fact_summary, if_pos rfl,
        h.summary fact hfact]
    · rw [confirm_fact_fact_id] at hne
      rw [last_summary_snoc, if_neg fun heq => hne heq.symm, h.summary found hold]

theorem corrected (h : corrections.foldlM (correct py actor) table = .ok table')
    (ht : Tracked log table.rows) :
    Tracked (log ++ corrections.filterMap (confirmation py)) table'.rows ∧
      ∀ fact ∈ table', fact.status = .review_needed → fact ∈ table ∧
        ∀ c ∈ corrections, ∀ summary, confirmation py c ≠ some (fact.fact_id, summary) := by
  induction corrections generalizing table log with
  | nil =>
    cases h
    exact ⟨by rwa [List.filterMap_nil, List.append_nil], fun _ hfact _ =>
      ⟨hfact, List.forall_mem_nil _⟩⟩
  | cons c corrections ih =>
    rw [List.foldlM_cons, Except.bind_eq_ok_iff] at h
    obtain ⟨table₁, hc, h⟩ := h
    obtain ⟨fact, hfact, summary, hconfirmation, rfl⟩ := correct_eq_ok hc
    obtain ⟨htracked, hleft⟩ := ih h <| ht.correct hfact
    rw [List.append_assoc, List.singleton_append] at htracked
    refine ⟨by rwa [List.filterMap_cons_some hconfirmation], fun found hfound hstatus => ?_⟩
    obtain ⟨hfound, hnamed⟩ := hleft found hfound hstatus
    rcases Table.mem_upsert hfound with rfl | ⟨hold, hne⟩
    · rw [confirm_fact_status] at hstatus
      cases hstatus
    · refine ⟨hold, List.forall_mem_cons.mpr ⟨fun summary' heq => ?_, hnamed⟩⟩
      rw [hconfirmation, Option.some_inj, Prod.mk.injEq] at heq
      exact hne <| by rw [confirm_fact_fact_id, heq.left]

end Correcting

section Runs

inductive Act
  | update (source : Source)
  | current (actor : Actor) (fresh : Except Error String)
  | confirm (report_id : String) (corrections : List Json) (expected_revision : ℕ) (actor : Actor)
    (fresh fresh' : Except Error String)

def Project.perform (st : Static) (py : Python) (p : Project) : Act → Project
  | .update source                                            => { p with source := some source }
  | .current actor fresh                                      =>
    match p.current st actor fresh with
    | .error _   => p
    | .ok (p, _) => p
  | .confirm report_id corrections revision actor fresh fresh' =>
    (p.confirm st py report_id corrections revision actor fresh fresh').1

-- The report that is stored is of another source than the one that is active.
def Project.Outdated (st : Static) (p : Project) (discovered : DiscoveryReport)
    (previous : Record) : Prop :=
  p.discovered st = .ok discovered ∧ p.knowledge.head? = some previous ∧
    unchanged discovered previous.content = false

-- No fact that is to be reviewed is discovered again.
def Project.Settled (st : Static) (p : Project) : Prop :=
  ∀ discovered previous, p.Outdated st discovered previous →
    ∀ prior ∈ previous.content.facts, prior.status = .review_needed →
      prior.fact_id ∉ discovered.facts.map Fact.fact_id

-- A fact that is to be reviewed once the source is discovered.
def Project.Awaiting (st : Static) (p : Project) (id : String) : Prop :=
  ∃ discovered previous, p.discovered st = .ok discovered ∧ p.knowledge.head? = some previous ∧
    ∃ prior ∈ previous.content.facts, prior.fact_id = id ∧
      if unchanged discovered previous.content then prior.status = .review_needed
      else prior.status.reviewed ∧ id ∉ discovered.facts.map Fact.fact_id

-- The fact is among the ones that the corrections confirm.
def Corrected (py : Python) (corrections : List Json) (id : String) : Prop :=
  ∃ c ∈ corrections, ∃ summary, confirmation py c = some (id, summary)

-- What the calls that return have to meet.
def Project.Attends (st : Static) (py : Python) (p : Project) : Act → Prop
  | .update _                                                  => True
  | .current actor fresh                                       =>
    (∃ r, p.current st actor fresh = .ok r) → p.Settled st
  | .confirm report_id corrections revision actor fresh fresh' =>
    ((∃ r, p.current st actor fresh = .ok r) → p.Settled st) ∧
      ((∃ view, (p.confirm st py report_id corrections revision actor fresh fresh').2 = .ok view) →
        ∀ id, p.Awaiting st id → Corrected py corrections id)

def attended (st : Static) (py : Python) : Machine Project Act where
  init p      := p = {}
  step p a p' := p.Attends st py a ∧ p' = p.perform st py a

-- What carries the induction: the report that is active bears all that users have said.
structure Faithful (p : Project) : Prop where
  active  : ∀ record, p.knowledge.head? = some record →
    Tracked p.confirmed record.content.facts ∧ Flagged record.content
  none    : p.knowledge = [] → p.confirmed = []
  reports : ∀ r ∈ p.reports, Kept r.1 r.2

theorem faithful_empty : Faithful {} where
  active  := fun _ h => by cases h
  none    := fun _ => rfl
  reports := List.forall_mem_nil _

-- The facts that `current` merges with what is discovered.
def Project.prior_facts (p : Project) : List Fact :=
  ((p.knowledge.head?.map Record.content).map Report.facts).getD []

theorem Faithful.prior_facts (h : Faithful p) : Tracked p.confirmed p.prior_facts := by
  rw [Project.prior_facts]
  cases hhead : p.knowledge.head? with
  | some record => exact (h.active record hhead).left
  | none        =>
    rw [h.none <| List.head?_eq_none_iff.mp hhead]
    exact ⟨.nil, fun _ ⟨_, h⟩ => absurd h List.not_mem_nil, List.forall_mem_nil _,
      List.forall_mem_nil _⟩

theorem mem_prior_facts (h : fact ∈ p.prior_facts) :
    ∃ previous, p.knowledge.head? = some previous ∧ fact ∈ previous.content.facts := by
  rw [Project.prior_facts] at h
  cases hhead : p.knowledge.head? with
  | none          =>
    rw [hhead] at h
    cases h
  | some previous =>
    rw [hhead] at h
    exact ⟨previous, rfl, h⟩

theorem create_eq_ok {content : Report} {revision : ℕ}
    (h : p.create content revision fresh = .ok (p', record)) :
    record.content = content ∧ p' = { p with knowledge := record :: p.knowledge } := by
  rw [Project.create] at h
  split at h
  case isTrue  => cases h
  case isFalse =>
    obtain ⟨version_id, -, h⟩ := Except.bind_eq_ok_iff.mp h
    have hpair := Except.ok.inj h
    rw [Prod.mk.injEq] at hpair
    exact ⟨hpair.right ▸ rfl, by rw [← hpair.left, ← hpair.right]⟩

-- What `current` shows: the report that is active, either stored before or merged just now.
theorem current_eq_ok (h : p.current st actor fresh = .ok (p', view)) :
    ∃ discovered record p₁, p.discovered st = .ok discovered ∧ (p', view) = p₁.returning record ∧
      p₁.confirmed = p.confirmed ∧ p₁.reports = p.reports ∧ p₁.knowledge.head? = some record ∧
      (p₁ = p ∧ unchanged discovered record.content ∨
        record.content = _merge discovered (p.knowledge.head?.map Record.content) ∧
          ∀ previous, p.knowledge.head? = some previous →
            unchanged discovered previous.content = false) := by
  simp only [Project.current, Except.bind_eq_ok_iff] at h
  obtain ⟨_, -, discovered, hdiscovered, h⟩ := h
  cases hfilter : p.knowledge.head?.filter fun previous =>
      unchanged discovered previous.content with
  | some record =>
    rw [hfilter] at h
    obtain ⟨hhead, hunchanged⟩ := Option.filter_eq_some_iff.mp hfilter
    exact ⟨discovered, record, p, hdiscovered, (Except.ok.inj h).symm, rfl, rfl, hhead,
      .inl ⟨rfl, hunchanged⟩⟩
  | none        =>
    rw [hfilter] at h
    simp only [Except.bind_eq_ok_iff] at h
    obtain ⟨_, -, ⟨p₁, record⟩, hcreate, h⟩ := h
    obtain ⟨hcontent, rfl⟩ := create_eq_ok hcreate
    refine ⟨discovered, record, _, hdiscovered, (Except.ok.inj h).symm, rfl, rfl, rfl,
      .inr ⟨hcontent, fun previous hprevious => ?_⟩⟩
    have hnone := Option.filter_eq_none_iff.mp hfilter previous hprevious
    exact Bool.eq_false_iff.mpr hnone

theorem Faithful.returning (h : Faithful p) (hrecord : p.knowledge.head? = some record) :
    Faithful (p.returning record).1 where
  active  := h.active
  none    := h.none
  reports := by
    intro r hr
    rcases List.mem_append.mp hr with hr | hr
    · exact h.reports r hr
    · have hactive := h.active record hrecord
      rw [List.mem_singleton.mp hr]
      exact hactive.left.kept hactive.right

theorem Faithful.current (h : Faithful p) (hsettled : p.Settled st)
    (hcurrent : p.current st actor fresh = .ok (p', view)) : Faithful p' ∧
      p'.knowledge.head?.map Record.view = some view ∧
      ∀ fact ∈ view.content.facts, fact.status = .review_needed → p.Awaiting st fact.fact_id := by
  obtain ⟨discovered, record, p₁, hdiscovered, hreturning, hconfirmed, hreports, hhead, hcases⟩ :=
    current_eq_ok hcurrent
  rw [Project.returning, Prod.mk.injEq] at hreturning
  obtain ⟨rfl, rfl⟩ := hreturning
  have hd := Project.discovered_of_ok hdiscovered
  suffices hfaithful : Faithful p₁ ∧ ∀ fact ∈ record.content.facts,
      fact.status = .review_needed → p.Awaiting st fact.fact_id from
    ⟨hfaithful.left.returning hhead, by rw [hhead]; rfl, hfaithful.right⟩
  rcases hcases with ⟨rfl, hunchanged⟩ | ⟨hcontent, hchanged⟩
  · refine ⟨h, fun fact hfact hstatus => ?_⟩
    exact ⟨discovered, record, hdiscovered, hhead, fact, hfact, rfl, by rwa [if_pos hunchanged]⟩
  · have hreview : ∀ prior ∈ p.prior_facts, prior.status = .review_needed →
        prior.fact_id ∉ discovered.facts.map Fact.fact_id := by
      intro prior hprior hstatus
      obtain ⟨previous, hprevious, hprior⟩ := mem_prior_facts hprior
      exact hsettled discovered previous ⟨hdiscovered, hprevious, hchanged previous hprevious⟩
        prior hprior hstatus
    have htracked : Tracked p₁.confirmed record.content.facts := by
      rw [hconfirmed, hcontent]
      exact h.prior_facts.merge hd hreview
    have hflagged : Flagged record.content := hcontent ▸ flagged_merge hd
    refine ⟨⟨fun active hactive => ?_, fun hnil => ?_, hreports ▸ h.reports⟩, ?_⟩
    · rw [hhead, Option.some_inj] at hactive
      exact hactive ▸ ⟨htracked, hflagged⟩
    · rw [hnil] at hhead
      cases hhead
    · intro fact hfact hstatus
      rw [hcontent] at hfact
      rcases List.mem_append.mp hfact with hfact | hfact
      · obtain ⟨found, hfound, rfl⟩ := List.mem_map.mp hfact
        exact absurd hstatus <| merge_fact_status (hd.fresh found hfound)
      · obtain ⟨prior, hprior, rfl⟩ := List.mem_map.mp hfact
        obtain ⟨hprior, hmissing, hreviewed⟩ := mem_missing_facts_iff.mp hprior
        obtain ⟨previous, hprevious, hprior⟩ := mem_prior_facts <| mem_of_by_fact_id hprior
        refine ⟨discovered, previous, hdiscovered, hprevious, prior, hprior, rfl, ?_⟩
        rw [if_neg (Bool.eq_false_iff.mp <| hchanged previous hprevious)]
        exact ⟨hreviewed, hmissing⟩

theorem Faithful.confirm_current (h : Faithful p) {current : View} {report_id : String}
    {corrections : List Json} {revision : ℕ}
    (hcurrent : p.knowledge.head?.map Record.view = some current)
    (hcorrected : ∀ fact ∈ current.content.facts, fact.status = .review_needed →
      Corrected py corrections fact.fact_id)
    (hok : p.confirm_current py current report_id corrections revision actor fresh =
      .ok (p', view)) : Faithful p' := by
  simp only [Project.confirm_current, Except.bind_eq_ok_iff] at hok
  obtain ⟨_, -, table, htable, hok⟩ := hok
  obtain ⟨active, hactive, rfl⟩ := Option.map_eq_some_iff.mp hcurrent
  cases hfind : p.knowledge.find? (·.version_id = report_id) with
  | none        =>
    rw [hfind] at hok
    cases hok
  | some record =>
    rw [hfind] at hok
    simp only [Except.bind_eq_ok_iff] at hok
    obtain ⟨⟨p₁, stored⟩, hcreate, hok⟩ := hok
    obtain ⟨hcontent, rfl⟩ := create_eq_ok hcreate
    have hp : _ = p' := congrArg Prod.fst (Except.ok.inj hok)
    have hrows : Tracked p.confirmed (by_fact_id active.content.facts).rows := by
      rw [rows_by_fact_id (h.active active hactive).left.nodup]
      exact (h.active active hactive).left
    obtain ⟨htracked, hleft⟩ := corrected htable hrows
    have hnone : ¬ ∃ fact ∈ table.rows, fact.status = .review_needed := by
      intro ⟨fact, hfact, hstatus⟩
      obtain ⟨hold, hnot⟩ := hleft fact hfact hstatus
      obtain ⟨c, hc, summary, hconfirmation⟩ :=
        hcorrected fact (mem_of_by_fact_id hold) hstatus
      exact hnot c hc summary hconfirmation
    rw [← hp]
    refine Faithful.returning ⟨fun newest hnewest => ?_, fun hnil => ?_, h.reports⟩ rfl
    · have hnewest : stored = newest := Option.some_inj.mp hnewest
      rw [← hnewest, Flagged, hcontent]
      exact ⟨htracked, iff_of_false Bool.false_ne_true hnone⟩
    · cases hnil

theorem Faithful.perform {act : Act} (h : Faithful p) (hattends : p.Attends st py act) :
    Faithful (p.perform st py act) := by
  cases act with
  | update source       => exact ⟨h.active, h.none, h.reports⟩
  | current actor fresh =>
    rw [Project.perform]
    cases hcurrent : p.current st actor fresh with
    | error e => exact h
    | ok r    => exact (h.current (hattends ⟨r, hcurrent⟩) hcurrent).left
  | confirm report_id corrections revision actor fresh fresh' =>
    obtain ⟨hsettled, hawaiting⟩ := hattends
    rw [Project.perform]
    rw [Project.confirm] at hawaiting ⊢
    cases hfirst : require actor.write .forbidden >>= fun _ => p.current st actor fresh with
    | error e => exact h
    | ok r    =>
      rw [hfirst] at hawaiting
      obtain ⟨_, -, hcurrent⟩ := Except.bind_eq_ok_iff.mp hfirst
      obtain ⟨hfaithful, hview, hreview⟩ := h.current (hsettled ⟨r, hcurrent⟩) hcurrent
      dsimp only at hawaiting ⊢
      cases hconfirm : r.1.confirm_current py r.2 report_id corrections revision actor fresh' with
      | error e => exact hfaithful
      | ok r'   =>
        rw [hconfirm] at hawaiting
        refine hfaithful.confirm_current hview (fun fact hfact hstatus => ?_) hconfirm
        exact hawaiting ⟨r'.2, rfl⟩ fact.fact_id <| hreview fact hfact hstatus

theorem faithful_of_reachable (r : (attended st py).Reachable p) : Faithful p :=
  r.preserves (fun _ h => h ▸ faithful_empty) fun _ _ _ h hstep =>
    hstep.right ▸ h.perform hstep.left

theorem settled_of_none (h : ∀ previous ∈ p.knowledge.head?, ∀ prior ∈ previous.content.facts,
    prior.status ≠ .review_needed) : p.Settled st :=
  fun _ previous hold prior hprior hstatus =>
    absurd hstatus <| h previous hold.right.left prior hprior

theorem confirmed_kept (r : (attended st py).Reachable p) : ∀ r ∈ p.reports, Kept r.1 r.2 :=
  (faithful_of_reachable r).reports

end Runs

namespace Sample

-- Every file is a module with one tool that has the text as its name.
def tools : Static where
  parse text _ := some { walk := [.class_def text [.name "BaseTool"] 1], body := [] }
  lower        := fun text => text
  fact_id      := fun _ name => name
  digest       := fun _ => ""

def user : Actor where
  actor_id := "u"
  read     := true
  write    := true

def source (version_id : String) (names : List String) : Source where
  version_id
  files := .ok <| names.map fun name => (name ++ ".py", name)

def correction (name : String) : Json :=
  .obj [("fact_id", .str name), ("status", .str "user_confirmed")]

def found : List Act :=
  [.update (source "1" ["t"]), .current user (.ok "a")]

def confirm : Act :=
  .confirm "a" [correction "t"] 1 user (.ok "") (.ok "b")

-- A tool is confirmed, taken away and brought back.
def returning : List Act :=
  found ++ [confirm, .update (source "2" []), .current user (.ok "c"),
    .update (source "3" ["t"]), .current user (.ok "d")]

def run (acts : List Act) : Project :=
  acts.foldl (Project.perform tools .ascii) {}

theorem reachable_found : (attended tools .ascii).Reachable (run found) := by
  have hupdate : (attended tools .ascii).step {} (.update (source "1" ["t"])) (run (found.take 1)) :=
    ⟨trivial, rfl⟩
  have hcurrent : (attended tools .ascii).step (run (found.take 1)) (.current user (.ok "a"))
      (run found) :=
    ⟨fun _ => settled_of_none (by decide), rfl⟩
  exact .step (.step (.init rfl) hupdate) hcurrent

theorem attends_confirm : (run found).Attends tools .ascii confirm := by
  refine ⟨fun _ => settled_of_none (by decide), fun _ name hawaiting => ?_⟩
  obtain ⟨discovered, previous, hdiscovered, hprevious, prior, hprior, hname, -⟩ := hawaiting
  have hfacts : (run found).knowledge.head?.map (fun record => record.content.facts.map Fact.fact_id) =
      some ["t"] := by decide
  rw [hprevious] at hfacts
  have hmem := List.mem_map_of_mem (f := Fact.fact_id) hprior
  have hfacts : previous.content.facts.map Fact.fact_id = ["t"] := Option.some_inj.mp hfacts
  rw [hfacts, List.mem_singleton, hname] at hmem
  exact ⟨correction "t", .head _, none, by rw [hmem]; rfl⟩

theorem reachable_confirmed :
    (attended tools .ascii).Reachable ((run found).perform tools .ascii confirm) :=
  reachable_found.step ⟨attends_confirm, rfl⟩

def shown (report : Report) : List (String × FactStatus) :=
  report.facts.map fun fact => (fact.fact_id, fact.status)

theorem shown_returning : (run returning).reports.map (fun r => (shown r.1, r.2)) =
    [([("t", .observed_static)], []), ([("t", .observed_static)], []),
      ([("t", .user_confirmed)], [("t", none)]), ([("t", .review_needed)], [("t", none)]),
      ([("t", .observed_static)], [("t", none)])] := by
  decide

end Sample

theorem confirmed_kept_once : ((Sample.run Sample.found).perform Sample.tools .ascii
    Sample.confirm).reports.Forall fun r => Kept r.1 r.2 :=
  List.forall_iff_forall_mem.mpr <| confirmed_kept Sample.reachable_confirmed

-- A fact that is brought back while it waits for review is as if no one had confirmed it.
theorem not_confirmed_kept : ¬ ∀ (st : Static) (py : Python) (acts : List Act),
    ∀ r ∈ (acts.foldl (Project.perform st py) {}).reports, Kept r.1 r.2 := by
  intro h
  have hlast : (([("t", FactStatus.observed_static)], [("t", none)]) :
      List (String × FactStatus) × Confirmed) ∈
        (Sample.run Sample.returning).reports.map fun r => (Sample.shown r.1, r.2) := by
    rw [Sample.shown_returning]
    decide
  obtain ⟨r, hr, heq⟩ := List.mem_map.mp hlast
  rw [Prod.mk.injEq] at heq
  obtain ⟨hshown, hlog⟩ := heq
  obtain ⟨fact, hfact, -, hstatus⟩ := (h Sample.tools .ascii Sample.returning r hr).facts "t"
    ⟨none, hlog ▸ .head _⟩
  have hmem := List.mem_map_of_mem (f := fun fact => (fact.fact_id, fact.status)) hfact
  rw [show r.1.facts.map (fun fact => (fact.fact_id, fact.status)) = _ from hshown,
    List.mem_singleton, Prod.mk.injEq] at hmem
  rw [hmem.right] at hstatus
  rcases hstatus with ⟨hstatus, -⟩ | hstatus <;> cases hstatus

end Knowledge
