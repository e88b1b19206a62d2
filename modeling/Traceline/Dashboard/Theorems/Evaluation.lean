import Traceline.Dashboard.Theorems.Layout
import Traceline.Dashboard.Theorems.Validation

-- What each part of the resolution of a definition can fail with.
namespace Dashboard

section Evaluation

variable {repr : Json → String} {ctx : Context} {bind bind' : List (String × Json)}
variable {store : Store} {name : String} {v w : Json} {e : Error} {comp : ComponentSpec}

-- One turn of `resolve_bind`.
def resolve_value (repr : Json → String) (ctx : Context) (value : Json) : Except Error Json :=
  match value with
  | .str s => if dollar s then resolve_ref repr s ctx else .ok value
  | _      => .ok value

theorem resolve_bind_cons :
    resolve_bind repr ctx ((name, v) :: bind) = (do
      let w ← resolve_value repr ctx v
      return (name, w) :: (← resolve_bind repr ctx bind)) := by
  cases v with
  | str s =>
    rw [resolve_bind, resolve_value]
    split <;> rfl
  | _     => rfl

theorem resolve_bind_ok (h : ∀ entry ∈ bind, ∃ w, resolve_value repr ctx entry.2 = .ok w) :
    ∃ bind', resolve_bind repr ctx bind = .ok bind' := by
  induction bind with
  | nil                => exact ⟨[], rfl⟩
  | cons entry bind ih =>
    obtain ⟨w, hw⟩ := h entry <| .head _
    obtain ⟨bind', hbind⟩ := ih fun entry hentry => h entry <| .tail _ hentry
    refine ⟨(entry.1, w) :: bind', ?_⟩
    rw [resolve_bind_cons, hw, hbind]
    rfl

theorem lookup_resolve_bind (h : resolve_bind repr ctx bind = .ok bind')
    (hlookup : bind.lookup name = some v) :
    ∃ w, bind'.lookup name = some w ∧ resolve_value repr ctx v = .ok w := by
  induction bind generalizing bind' with
  | nil                => cases hlookup
  | cons entry bind ih =>
    obtain ⟨name', v'⟩ := entry
    rw [resolve_bind_cons] at h
    cases hw : resolve_value repr ctx v' with
    | error e =>
      rw [hw] at h
      cases h
    | ok w    =>
      cases hrest : resolve_bind repr ctx bind with
      | error e =>
        rw [hw, hrest] at h
        cases h
      | ok rest =>
        rw [hw, hrest] at h
        cases h
        rw [List.lookup_cons] at hlookup ⊢
        cases hname : name == name' with
        | true  =>
          rw [hname] at hlookup
          cases hlookup
          exact ⟨w, rfl, hw⟩
        | false =>
          rw [hname] at hlookup
          exact ih hrest hlookup

theorem bound_run_error (h : bound_run ctx bind = .error e) :
    (get bind "run").truthy ∧ parameter (get bind "run") = .error e := by
  unfold bound_run at h
  dsimp only at h
  split at h
  case isTrue ht =>
    refine ⟨ht, ?_⟩
    unfold Store.get_run at h
    cases hp : parameter (get bind "run") with
    | error e' =>
      rw [hp] at h
      cases h
      rfl
    | ok _     =>
      rw [hp] at h
      cases h
  case isFalse => cases h

theorem bound_run_ok {run : Option RunRecord} (h : bound_run ctx bind = .ok run)
    (ht : (get bind "run").truthy) : parameter (get bind "run") = .ok () := by
  unfold bound_run at h
  rw [if_pos ht] at h
  unfold Store.get_run at h
  cases hp : parameter (get bind "run") with
  | error e =>
    rw [hp] at h
    cases h
  | ok _    => rfl

-- What can fail of each component is its run and, where it shows the evidence of a case, that case.
theorem resolve_run_table_error (h : resolve_run_table bind ctx = .error e) :
    bound_run ctx bind = .error e := by
  unfold resolve_run_table at h
  cases hrun : bound_run ctx bind with
  | error e'  =>
    rw [hrun] at h
    cases h
    rfl
  | ok run    =>
    rw [hrun] at h
    cases run <;> cases h

theorem resolve_case_table_error (h : resolve_case_table bind ctx = .error e) :
    bound_run ctx bind = .error e := by
  unfold resolve_case_table at h
  cases hrun : bound_run ctx bind with
  | error e'  =>
    rw [hrun] at h
    cases h
    rfl
  | ok run    =>
    rw [hrun] at h
    cases run <;> cases h

theorem resolve_metric_summary_error {metric stat : Json}
    (hmetric : bind.lookup "metric" = some metric) (hstat : bind.lookup "stat" = some stat)
    (h : resolve_metric_summary repr bind ctx = .error e) : bound_run ctx bind = .error e := by
  unfold resolve_metric_summary item at h
  rw [hmetric, hstat] at h
  cases hrun : bound_run ctx bind with
  | error e'  =>
    rw [hrun] at h
    cases h
    rfl
  | ok run    =>
    rw [hrun] at h
    cases run with
    | none     => cases h
    | some run =>
      dsimp only [Bind.bind, Except.bind] at h
      split at h <;> cases h

theorem resolve_trace_evidence_error (h : resolve_trace_evidence bind ctx = .error e) :
    bound_run ctx bind = .error e ∨ ∃ run, bound_run ctx bind = .ok (some run) ∧
      (get bind "case").truthy ∧ parameter (get bind "case") = .error e := by
  unfold resolve_trace_evidence at h
  cases hrun : bound_run ctx bind with
  | error e'  =>
    rw [hrun] at h
    cases h
    exact .inl rfl
  | ok run    =>
    rw [hrun] at h
    cases run with
    | none     => cases h
    | some run =>
      dsimp only [Bind.bind, Except.bind] at h
      split at h
      case isTrue        => cases h
      case isFalse hcase =>
        unfold Store.get_case_scores at h
        cases hp : parameter (get bind "case") with
        | error e' =>
          rw [hp] at h
          cases h
          exact .inr ⟨run, rfl, by simpa using hcase, rfl⟩
        | ok _     =>
          rw [hp] at h
          cases h

theorem resolve_trace_evidence_ok {run : RunRecord} {p : Payload}
    (h : resolve_trace_evidence bind ctx = .ok p) (hrun : bound_run ctx bind = .ok (some run))
    (ht : (get bind "case").truthy) : parameter (get bind "case") = .ok () := by
  unfold resolve_trace_evidence at h
  rw [hrun] at h
  dsimp only [Bind.bind, Except.bind] at h
  rw [ht] at h
  unfold Store.get_case_scores at h
  cases hp : parameter (get bind "case") with
  | error e =>
    rw [hp] at h
    cases h
  | ok _    => rfl

-- The errors of a component, where it has what it subscripts.
theorem payload_error
    (hitems : comp.resolve = .metric_summary → ∀ name ∈ ["metric", "stat"],
      ∃ v, bind.lookup name = some v)
    (h : comp.payload repr bind ctx = .error e) :
    comp.resolve ≠ .filter_bar ∧ (bound_run ctx bind = .error e ∨
      ∃ run, bound_run ctx bind = .ok (some run) ∧ comp.resolve = .trace_evidence ∧
        (get bind "case").truthy ∧ parameter (get bind "case") = .error e) := by
  unfold ComponentSpec.payload at h
  cases hr : comp.resolve with
  | metric_summary =>
    rw [hr] at h
    obtain ⟨metric, hmetric⟩ := hitems hr "metric" <| by simp
    obtain ⟨stat, hstat⟩ := hitems hr "stat" <| by simp
    exact ⟨by simp, .inl <| resolve_metric_summary_error hmetric hstat h⟩
  | run_table      =>
    rw [hr] at h
    exact ⟨by simp, .inl <| resolve_run_table_error h⟩
  | case_table     =>
    rw [hr] at h
    exact ⟨by simp, .inl <| resolve_case_table_error h⟩
  | trace_evidence =>
    rw [hr] at h
    refine ⟨by simp, ?_⟩
    obtain h | ⟨run, hrun, hcase⟩ := resolve_trace_evidence_error h
    · exact .inl h
    · exact .inr ⟨run, hrun, rfl, hcase⟩
  | filter_bar     =>
    rw [hr] at h
    cases h

theorem payload_ok {p : Payload} (h : comp.payload repr bind ctx = .ok p)
    (hr : comp.resolve ≠ .filter_bar) : ∃ run, bound_run ctx bind = .ok run := by
  cases hrun : bound_run ctx bind with
  | ok run  => exact ⟨run, rfl⟩
  | error e =>
    unfold ComponentSpec.payload resolve_metric_summary resolve_run_table resolve_case_table
      resolve_trace_evidence at h
    rw [hrun] at h
    cases hc : comp.resolve with
    | filter_bar => exact absurd hc hr
    | metric_summary | run_table | case_table | trace_evidence =>
      rw [hc] at h
      cases h

end Evaluation

section Definitions

variable {repr : Json → String} {d : DashboardDefinition} {ctx : Context} {store : Store}
variable {filters selection : List (String × Json)} {b : BlockDef} {e : Error}
variable {run : Option RunRecord} {blocks : List (BlockDef × Position)} {position : Position}

-- The id of the selected run.
def selected_id (d : DashboardDefinition) (filters : List (String × Json)) (store : Store) : Json :=
  match d.filters.find? (·.type = "run_selector") with
  | none   => .null
  | some f => get (d.filters.map fun f => (f.id, filter_value store filters f)) f.id

def select_run (d : DashboardDefinition) (filters : List (String × Json)) (store : Store) :
    Except Error (Option RunRecord) :=
  if (selected_id d filters store).truthy then store.get_run (selected_id d filters store)
  else .ok none

def context (d : DashboardDefinition) (filters selection : List (String × Json)) (store : Store)
    (run : Option RunRecord) : Context where
  store     := store
  run       := run
  filters   := d.filters.map fun f => (f.id, filter_value store filters f)
  selection := selection

theorem select_run_error (h : select_run d filters store = .error e) :
    (selected_id d filters store).truthy ∧ parameter (selected_id d filters store) = .error e := by
  unfold select_run at h
  split at h
  case isFalse  => cases h
  case isTrue ht =>
    refine ⟨ht, ?_⟩
    unfold Store.get_run at h
    cases hp : parameter (selected_id d filters store) with
    | error e =>
      rw [hp] at h
      cases h
      rfl
    | ok _    =>
      rw [hp] at h
      cases h

theorem select_run_ok (h : select_run d filters store = .ok run)
    (ht : (selected_id d filters store).truthy) :
    parameter (selected_id d filters store) = .ok () ∧
      run = store.run (selected_id d filters store) := by
  unfold select_run at h
  rw [if_pos ht] at h
  unfold Store.get_run at h
  cases hp : parameter (selected_id d filters store) with
  | error e =>
    rw [hp] at h
    cases h
  | ok _    =>
    rw [hp] at h
    cases h
    exact ⟨rfl, rfl⟩

def dashboard (d : DashboardDefinition) (run : Option RunRecord) (rows : List MetricRow)
    (blocks : List ResolvedBlock) : ResolvedDashboard :=
  let metrics_complete := rows ≠ [] && rows.all (·.aggregation_state = "COMPLETE")
  {
    name             := d.name
    version          := d.version
    layout           := d.layout
    filters          := d.filters
    blocks
    registry_version := REGISTRY_VERSION
    run
    metrics_complete
    render_final     := run.any (TERMINAL.contains ·.status) && metrics_complete
  }

-- The rest of `resolve_valid` once the run is known.
def resolve_with (repr : Json → String) (d : DashboardDefinition)
    (filters selection : List (String × Json)) (store : Store) (run : Option RunRecord) :
    Except Error ResolvedDashboard := do
  let rows ←
    if run.isSome then store.get_run_metric_results (selected_id d filters store) else .ok []
  let blocks ← resolve_blocks repr (context d filters selection store run)
    (d.blocks.zip (layout_blocks d.blocks d.layout.columns))
  return dashboard d run rows blocks

theorem resolve_valid_eq :
    resolve_valid repr d filters selection store =
      select_run d filters store >>= resolve_with repr d filters selection store := by
  change (if (selected_id d filters store).truthy then
    store.get_run (selected_id d filters store) >>= resolve_with repr d filters selection store
    else .ok none >>= resolve_with repr d filters selection store) = _
  unfold select_run
  split <;> rfl

theorem resolve_with_eq (h : select_run d filters store = .ok run) :
    ∃ rows, resolve_with repr d filters selection store run =
      (resolve_blocks repr (context d filters selection store run)
        (d.blocks.zip (layout_blocks d.blocks d.layout.columns))).map (dashboard d run rows) := by
  have hblocks (rows : List MetricRow) : (do
      let blocks ← resolve_blocks repr (context d filters selection store run)
        (d.blocks.zip (layout_blocks d.blocks d.layout.columns))
      return dashboard d run rows blocks) =
      (resolve_blocks repr (context d filters selection store run)
        (d.blocks.zip (layout_blocks d.blocks d.layout.columns))).map (dashboard d run rows) := by
    cases resolve_blocks repr (context d filters selection store run)
        (d.blocks.zip (layout_blocks d.blocks d.layout.columns)) <;> rfl
  unfold resolve_with
  by_cases hsome : run.isSome
  case neg =>
    rw [if_neg hsome]
    exact ⟨[], hblocks []⟩
  case pos =>
    have ht : (selected_id d filters store).truthy := by
      by_contra ht
      unfold select_run at h
      rw [if_neg ht] at h
      cases h
      cases hsome
    obtain ⟨hp, -⟩ := select_run_ok h ht
    rw [if_pos hsome]
    unfold Store.get_run_metric_results
    rw [hp]
    exact ⟨_, hblocks _⟩

theorem resolve_blocks_error (h : resolve_blocks repr ctx blocks = .error e) :
    ∃ entry ∈ blocks, resolve_block repr ctx entry.1 entry.2 = .error e := by
  induction blocks with
  | nil                  => cases h
  | cons entry blocks ih =>
    unfold resolve_blocks at h
    cases hblock : resolve_block repr ctx entry.1 entry.2 with
    | error e' =>
      rw [hblock] at h
      cases h
      exact ⟨entry, .head _, hblock⟩
    | ok r     =>
      rw [hblock] at h
      cases hrest : resolve_blocks repr ctx blocks with
      | error e' =>
        rw [hrest] at h
        cases h
        obtain ⟨entry', hentry, he⟩ := ih hrest
        exact ⟨entry', .tail _ hentry, he⟩
      | ok rs    =>
        rw [hrest] at h
        cases h

theorem resolve_blocks_ok {resolved : List ResolvedBlock}
    (h : resolve_blocks repr ctx blocks = .ok resolved) :
    ∀ entry ∈ blocks, ∃ r, resolve_block repr ctx entry.1 entry.2 = .ok r := by
  induction blocks generalizing resolved with
  | nil                  => intro entry hentry; cases hentry
  | cons entry blocks ih =>
    unfold resolve_blocks at h
    cases hblock : resolve_block repr ctx entry.1 entry.2 with
    | error e => 
      rw [hblock] at h
      cases h
    | ok r    =>
      rw [hblock] at h
      cases hrest : resolve_blocks repr ctx blocks with
      | error e =>
        rw [hrest] at h
        cases h
      | ok rs   =>
        intro entry' hentry
        obtain rfl | hentry := List.mem_cons.mp hentry
        · exact ⟨r, hblock⟩
        · exact ih hrest entry' hentry

theorem resolve_valid_error (he : resolve_valid repr d filters selection store = .error e) :
    select_run d filters store = .error e ∨ ∃ run, select_run d filters store = .ok run ∧
      ∃ b ∈ d.blocks, ∃ position,
        resolve_block repr (context d filters selection store run) b position = .error e := by
  rw [resolve_valid_eq] at he
  cases hrun : select_run d filters store with
  | error e' =>
    rw [hrun] at he
    cases he
    exact .inl rfl
  | ok run   =>
    rw [hrun] at he
    change resolve_with repr d filters selection store run = _ at he
    obtain ⟨rows, hrows⟩ := resolve_with_eq hrun
    rw [hrows] at he
    refine .inr ⟨run, rfl, ?_⟩
    cases hblocks : resolve_blocks repr (context d filters selection store run)
        (d.blocks.zip (layout_blocks d.blocks d.layout.columns)) with
    | ok rs    =>
      rw [hblocks] at he
      cases he
    | error e' =>
      rw [hblocks] at he
      cases he
      obtain ⟨entry, hentry, he⟩ := resolve_blocks_error hblocks
      exact ⟨entry.1, (List.of_mem_zip hentry).left, entry.2, he⟩

theorem resolve_valid_ok {r : ResolvedDashboard}
    (hr : resolve_valid repr d filters selection store = .ok r) :
    ∃ run, select_run d filters store = .ok run ∧ ∀ b ∈ d.blocks, ∃ position r,
      resolve_block repr (context d filters selection store run) b position = .ok r := by
  rw [resolve_valid_eq] at hr
  cases hrun : select_run d filters store with
  | error e =>
    rw [hrun] at hr
    cases hr
  | ok run  =>
    rw [hrun] at hr
    change resolve_with repr d filters selection store run = _ at hr
    obtain ⟨rows, hrows⟩ := resolve_with_eq hrun
    rw [hrows] at hr
    refine ⟨run, rfl, fun b hb => ?_⟩
    cases hblocks : resolve_blocks repr (context d filters selection store run)
        (d.blocks.zip (layout_blocks d.blocks d.layout.columns)) with
    | error e =>
      rw [hblocks] at hr
      cases hr
    | ok rs   =>
      have hlength : d.blocks.length = (layout_blocks d.blocks d.layout.columns).length :=
        layout_from_length.symm
      have hmem : b ∈ (d.blocks.zip (layout_blocks d.blocks d.layout.columns)).map Prod.fst := by
        rwa [List.map_fst_zip hlength.le]
      obtain ⟨entry, hentry, rfl⟩ := List.mem_map.mp hmem
      exact ⟨entry.2, resolve_blocks_ok hblocks entry hentry⟩

theorem resolve_block_ok (hcomp : REGISTRY.lookup b.component = some comp)
    (h : resolve_block repr ctx b position = .ok r) :
    ∃ bind p, resolve_bind repr ctx b.bind = .ok bind ∧ comp.payload repr bind ctx = .ok p := by
  unfold resolve_block at h
  cases hbind : resolve_bind repr ctx b.bind with
  | error e =>
    rw [hbind] at h
    cases h
  | ok bind =>
    rw [hbind] at h
    dsimp only [Bind.bind, Except.bind] at h
    rw [hcomp] at h
    dsimp only at h
    cases hpayload : comp.payload repr bind ctx with
    | error e =>
      rw [hpayload] at h
      cases h
    | ok p    => exact ⟨bind, p, rfl, hpayload⟩

end Definitions

end Dashboard
