import Traceline.Json
import Traceline.Storage

-- The validation of a dashboard definition and its resolution against a store.
namespace Dashboard

structure LayoutDef where
  type    : String := "grid"
  columns : Int := 12
  deriving DecidableEq, Repr

structure FilterDef where
  id      : String
  type    : String
  default : Json := .null
  deriving Repr

-- The keys of a binding are distinct, as those of a `dict` are.
structure BlockDef where
  component : String
  span      : Int
  bind      : List (String × Json)
  bind_keys : (bind.map (·.1)).Nodup
  deriving Repr

structure DashboardDefinition where
  version          : Int
  name             : String
  layout           : LayoutDef := {}
  filters          : List FilterDef := []
  blocks           : List BlockDef
  registry_version : Option Int := none
  deriving Repr

-- Row and first column of a block.
structure Position where
  row : Int
  col : Int
  deriving DecidableEq, Repr

-- Where the next block goes, with the cursor behind the last one.
def fit (columns : Int) (cursor : Position) (block : BlockDef) : Position :=
  if cursor.col + block.span > columns then ⟨cursor.row + 1, 0⟩ else cursor

-- The loop of `_layout_blocks`.
def layout_from (columns : Int) : List BlockDef → Position → List Position
  | [],              _      => []
  | block :: blocks, cursor =>
    let position := fit columns cursor block
    position :: layout_from columns blocks ⟨position.row, position.col + block.span⟩

def layout_blocks (blocks : List BlockDef) (columns : Int) : List Position :=
  layout_from columns blocks ⟨0, 0⟩

-- The type of a bound value. `any` is that of a selection no component has given a type.
inductive BindingType
  | run_id
  | case_id
  | metric_id
  | string
  | boolean
  | number
  | null
  | any
  deriving DecidableEq, Repr

def BindingType.toString : BindingType → String
  | .run_id    => "run_id"
  | .case_id   => "case_id"
  | .metric_id => "metric_id"
  | .string    => "string"
  | .boolean   => "boolean"
  | .number    => "number"
  | .null      => "null"
  | .any       => "any"

inductive InputType
  | run_id
  | case_id
  | metric_id
  | string
  | boolean
  | number
  | enum
  | selection_source
  deriving DecidableEq, Repr

def InputType.toString : InputType → String
  | .run_id           => "run_id"
  | .case_id          => "case_id"
  | .metric_id        => "metric_id"
  | .string           => "string"
  | .boolean          => "boolean"
  | .number           => "number"
  | .enum             => "enum"
  | .selection_source => "selection_source"

def FILTER_TYPES : List (String × BindingType) := [
  ("run_selector", .run_id),
  ("tag_filter", .string),
  ("metric_filter", .metric_id),
  ("case_filter", .case_id),
  ("string", .string),
  ("boolean", .boolean)
]

def RUN_FIELDS : List (String × BindingType) := [
  ("id", .run_id),
  ("status", .string),
  ("tier", .string),
  ("case_count", .number),
  ("name", .string),
  ("spec_version", .string),
  ("dataset_version", .string),
  ("created_at", .string),
  ("run_started_at", .string),
  ("run_completed_at", .string)
]

def DEFINITION_VERSION : Int :=
  3

def REGISTRY_VERSION : Int :=
  1

def STATS : List String :=
  ["pass_rate", "mean", "p95", "count", "cost"]

-- `values` is empty for an input that is no enum.
structure InputSpec where
  name     : String
  type     : InputType
  required : Bool := false
  values   : List String := []
  deriving DecidableEq, Repr

inductive Resolver
  | metric_summary
  | run_table
  | case_table
  | trace_evidence
  | filter_bar
  deriving DecidableEq, Repr

structure ComponentSpec where
  name           : String
  version        : Int := 1
  inputs         : List InputSpec
  resolve        : Resolver
  selection_type : Option BindingType := none
  trace_required : Bool := false
  deriving DecidableEq, Repr

def run_input : InputSpec where
  name     := "run"
  type     := .run_id
  required := true

def metric_summary : ComponentSpec where
  name    := "metric_summary"
  inputs  := [
    run_input,
    { name := "metric", type := .metric_id, required := true },
    { name := "stat", type := .enum, required := true, values := STATS }
  ]
  resolve := .metric_summary

def run_table : ComponentSpec where
  name    := "run_table"
  inputs  := [run_input]
  resolve := .run_table

def case_table : ComponentSpec where
  name           := "case_table"
  inputs         := [
    run_input,
    { name := "metric", type := .metric_id },
    { name := "tag", type := .string },
    { name := "case", type := .case_id },
    { name := "selection", type := .selection_source }
  ]
  selection_type := some .case_id
  resolve        := .case_table

def trace_evidence : ComponentSpec where
  name    := "trace_evidence"
  inputs  := [run_input, { name := "case", type := .case_id, required := true }]
  resolve := .trace_evidence

def filter_bar : ComponentSpec where
  name    := "FilterBar"
  inputs  := []
  resolve := .filter_bar

def REGISTRY : List (String × ComponentSpec) := [
  ("metric_summary", metric_summary),
  ("run_table", run_table),
  ("case_table", case_table),
  ("trace_evidence", trace_evidence),
  ("MetricCard", { metric_summary with name := "MetricCard" }),
  ("MetricBreakdown", { metric_summary with name := "MetricBreakdown" }),
  ("RunSummary", { run_table with name := "RunSummary" }),
  ("TestCaseTable", { case_table with name := "TestCaseTable" }),
  ("TraceTimeline", { trace_evidence with name := "TraceTimeline" }),
  ("ExpectedVsActual", { case_table with name := "ExpectedVsActual" }),
  ("FilterBar", filter_bar)
]

structure DefinitionProblem where
  field   : String
  code    : String
  message : String
  deriving DecidableEq, Repr

inductive RefKind
  | filters
  | selection
  | run
  deriving DecidableEq, Repr

def ref_kind (kind : List Char) : Option RefKind :=
  if kind = "filters".toList then some .filters
  else if kind = "selection".toList then some .selection
  else if kind = "run".toList then some .run
  else none

def dollar (s : String) : Bool :=
  s.toList.head? = some '$'

-- `_BINDING_RE.match`, where `$` also matches before a newline at the end.
def binding (s : String) : Option (RefKind × String) :=
  match s.toList with
  | '$' :: cs => do
    let kind ← ref_kind (cs.takeWhile (· ≠ '.'))
    match cs.dropWhile (· ≠ '.') with
    | _ :: rest =>
      let name := if rest.getLast? = some '\n' then rest.dropLast else rest
      if name.head?.any (fun c => c.isAlpha || c = '_') &&
          name.all (fun c => c.isAlphanum || c = '_')
      then some (kind, String.ofList name)
      else none
    | []        => none
  | _         => none

section Validation

-- `repr`
variable (repr : Json → String)

def sorted_repr (names : List String) : String :=
  repr <| .arr <| names.mergeSort.map .str

-- The type of a value with the value itself where it is a literal, or a code with its message.
def binding_type_of (filters : List FilterDef) (selection_types : List (String × BindingType))
    (value : Json) : Except (String × String) (BindingType × Option Json) :=
  match value with
  | .str s =>
    match binding s with
    | none                    =>
      if dollar s then
        .error ("invalid_binding",
          s!"invalid binding {repr value} — the grammar is $filters.<id> | " ++
            "$selection.<id> | $run.<field> | literal (§37B.2)")
      else .ok (.string, some value)
    | some (.filters, name)   =>
      match filters.find? (·.id = name) with
      | none   =>
        .error ("unknown_filter_ref", s!"unknown filter reference {repr value} (§37B.2 rule 2)")
      | some f => .ok ((FILTER_TYPES.lookup f.type).getD .string, none)
    | some (.selection, name) =>
      match selection_types.lookup name with
      | none   =>
        .error ("unknown_selection_ref", s!"unknown selection reference {repr value} — no block " ++
          s!"publishes a selection named {repr (.str name)} (§37B.2 rule 2)")
      | some t => .ok (t, none)
    | some (.run, name)       =>
      match RUN_FIELDS.lookup name with
      | none   =>
        .error ("unknown_run_field", s!"unknown $run field {repr (.str name)} (fields: " ++
          s!"{sorted_repr repr (RUN_FIELDS.map Prod.fst)}; §37B.2 rule 2)")
      | some t => .ok (t, none)
  | .bool _ => .ok (.boolean, some value)
  | .int _ | .float _ => .ok (.number, some value)
  | .null => .ok (.null, none)
  | .arr _ | .obj _ =>
    .error ("invalid_binding",
      s!"binding value must be a string, number, boolean, or null, got {value.type_name}")

-- The binding type that an input of an id type asks for.
def id_type : InputType → Option BindingType
  | .run_id    => some .run_id
  | .case_id   => some .case_id
  | .metric_id => some .metric_id
  | _          => none

def string_like (t : BindingType) : Bool :=
  t = .string || t = .run_id || t = .case_id || t = .metric_id

-- None where the binding fits, else the reason why it does not.
def check_input (inp : InputSpec) (btype : BindingType) (literal : Option Json) : Option String :=
  match inp.type with
  | .enum             =>
    if btype ≠ .string || !inp.values.any (fun v => literal = some (.str v)) then
      some s!"must be one of {repr (.arr (inp.values.map .str))}"
    else none
  | .selection_source => some "selection inputs bind a literal selection id"
  | .boolean          => if btype = .boolean then none else some "must be a boolean"
  | .number           => if btype = .number then none else some "must be a number"
  | .string           => if string_like btype then none else some "must be a string"
  | .run_id | .case_id | .metric_id =>
    if id_type inp.type = some btype then none
    else if btype = .string && literal.isSome then none
    else some s!"must be a {inp.type.toString}"

def check_header (d : DashboardDefinition) : List DefinitionProblem :=
  (if d.version ≠ DEFINITION_VERSION then
    [⟨"version", "unsupported_version",
      s!"dashboard definition version must be {DEFINITION_VERSION}, got {d.version}"⟩]
  else []) ++
  (if d.layout.type ≠ "grid" then
    [⟨"layout.type", "grid_violation",
      s!"layout.type must be 'grid', got {repr (.str d.layout.type)}"⟩]
  else []) ++
  (if d.layout.columns ≠ 12 then
    [⟨"layout.columns", "grid_violation",
      s!"the layout grid has 12 columns (§37B.1); got {d.layout.columns}"⟩]
  else []) ++
  match d.registry_version with
  | none   => []
  | some v =>
    if v ≠ REGISTRY_VERSION then
      [⟨"registry_version", "registry_mismatch",
        s!"this dashboard pins registry v{v}; the current registry is v{REGISTRY_VERSION} — " ++
          "quarantined until migrated (§37B.4)"⟩]
    else []

def check_filters (i : ℕ) (filter_ids : List String) : List FilterDef → List DefinitionProblem
  | []           => []
  | f :: filters =>
    let field := s!"filters[{i}]"
    if f.id ∈ filter_ids then
      ⟨s!"{field}.id", "duplicate_filter_id", s!"duplicate filter id {repr (.str f.id)}"⟩ ::
        check_filters (i + 1) filter_ids filters
    else
      (if (FILTER_TYPES.lookup f.type).isNone then
        [⟨s!"{field}.type", "unknown_filter_type",
          s!"unknown filter type {repr (.str f.type)}; must be one of " ++
            s!"{sorted_repr repr (FILTER_TYPES.map Prod.fst)}"⟩]
      else []) ++ check_filters (i + 1) (f.id :: filter_ids) filters

-- Span and inputs of a block.
def check_component (columns : Int) (bfield : String) (block : BlockDef) (comp : ComponentSpec) :
    List DefinitionProblem :=
  (if comp.trace_required then
    [⟨s!"{bfield}.component", "raw_scan_violation",
      s!"component {repr (.str block.component)} requires raw trace scans — dashboards resolve " ++
        "against pre-aggregated results only (§37B.2 rule 6)"⟩]
  else []) ++
  (if ¬(1 ≤ block.span ∧ block.span ≤ columns) then
    [⟨s!"{bfield}.span", "grid_violation",
      s!"block span must be within 1..{columns}, got {block.span} (§37B.2 rule 5)"⟩]
  else []) ++
  (block.bind.flatMap fun (name, _) =>
    if comp.inputs.all (·.name ≠ name) then
      [⟨s!"{bfield}.bind.{name}", "unknown_input",
        s!"component {repr (.str block.component)} has no input {repr (.str name)} (inputs: " ++
          s!"{sorted_repr repr (comp.inputs.map InputSpec.name)})"⟩]
    else []) ++
  (comp.inputs.flatMap fun inp =>
    if inp.required && (block.bind.lookup inp.name).isNone then
      [⟨s!"{bfield}.bind", "missing_required_input",
        s!"component {repr (.str block.component)} requires input {repr (.str inp.name)} " ++
          "(§37B.2 rule 4)"⟩]
    else [])

-- The literal id that a block gives its selection.
def selection_id (block : BlockDef) (inp : InputSpec) : Option String :=
  match block.bind.lookup inp.name with
  | some (.str s) => if s = "" || dollar s then none else some s
  | _             => none

def check_selections (bfield : String) (block : BlockDef) (comp : ComponentSpec) :
    List InputSpec → List (String × BindingType) →
    List DefinitionProblem × List (String × BindingType)
  | [],            selection_types => ([], selection_types)
  | inp :: inputs, selection_types =>
    if inp.type ≠ .selection_source then check_selections bfield block comp inputs selection_types
    else
      match selection_id block inp with
      | none     =>
        let (problems, selection_types) :=
          check_selections bfield block comp inputs selection_types
        (⟨s!"{bfield}.bind.{inp.name}", "type_mismatch",
          s!"input {repr (.str inp.name)} of {repr (.str block.component)} must be a literal " ++
            "selection id (a string naming the selection this block publishes)"⟩ :: problems,
          selection_types)
      | some raw =>
        let type := comp.selection_type.getD .any
        let conflict :=
          if (selection_types.lookup raw).any (· ≠ type) then
            [⟨s!"{bfield}.bind.{inp.name}", "conflicting_selection",
              s!"selection {repr (.str raw)} is published with conflicting types"⟩]
          else []
        let (problems, selection_types) :=
          check_selections bfield block comp inputs ((raw, type) :: selection_types)
        (conflict ++ problems, selection_types)

-- The pass over the blocks, with the selections published so far.
def check_blocks (columns : Int) (i : ℕ) :
    List BlockDef → List (String × BindingType) →
    List DefinitionProblem × List (String × BindingType)
  | [],              selection_types => ([], selection_types)
  | block :: blocks, selection_types =>
    let bfield := s!"blocks[{i}]"
    match REGISTRY.lookup block.component with
    | none      =>
      let (problems, selection_types) := check_blocks columns (i + 1) blocks selection_types
      (⟨s!"{bfield}.component", "unknown_component",
        s!"unknown component {repr (.str block.component)} — the registry is closed for the MVP " ++
          s!"({sorted_repr repr (REGISTRY.map Prod.fst)}; §37B.2 rule 1)"⟩ :: problems,
        selection_types)
    | some comp =>
      let (selections, selection_types) :=
        check_selections repr bfield block comp comp.inputs selection_types
      let (problems, selection_types) := check_blocks columns (i + 1) blocks selection_types
      (check_component repr columns bfield block comp ++ selections ++ problems, selection_types)

-- One binding against the input it is for.
def check_bind (filters : List FilterDef) (selection_types : List (String × BindingType))
    (bfield : String) (comp : ComponentSpec) (name : String) (value : Json) :
    List DefinitionProblem :=
  match comp.inputs.find? (·.name = name) with
  | none     => []
  | some inp =>
    if inp.type = .selection_source || value = .null then []
    else
      match binding_type_of repr filters selection_types value with
      | .error (code, message) => [⟨s!"{bfield}.bind.{name}", code, message⟩]
      | .ok (btype, literal)   =>
        match check_input repr inp btype literal with
        | none        => []
        | some reason =>
          let values :=
            if inp.type = .enum then s!" with values {repr (.arr (inp.values.map .str))}" else ""
          [⟨s!"{bfield}.bind.{name}", "type_mismatch",
            s!"binding {repr value} (type {btype.toString}) does not satisfy input " ++
              s!"{repr (.str inp.name)} (type {inp.type.toString}{values}): {reason}"⟩]

def check_binds (filters : List FilterDef) (selection_types : List (String × BindingType))
    (i : ℕ) : List BlockDef → List DefinitionProblem
  | []              => []
  | block :: blocks =>
    (match REGISTRY.lookup block.component with
      | none      => []
      | some comp =>
        block.bind.flatMap fun (name, value) =>
          check_bind repr filters selection_types s!"blocks[{i}]" comp name value) ++
      check_binds filters selection_types (i + 1) blocks

def problems (d : DashboardDefinition) : List DefinitionProblem :=
  let (blocks, selection_types) := check_blocks repr d.layout.columns 0 d.blocks []
  check_header repr d ++ check_filters repr 0 [] d.filters ++ blocks ++
    check_binds repr d.filters selection_types 0 d.blocks

def validate_definition (d : DashboardDefinition) : Except (List DefinitionProblem) Unit :=
  if problems repr d = [] then .ok () else .error (problems repr d)

end Validation

structure MetricSpec where
  metric_id   : String
  name        : String
  type        : String
  method      : String
  provisional : Bool
  deriving DecidableEq, Repr

-- A case of a frozen spec, with the `tags` of its metadata or null.
structure SpecCase where
  case_id : String
  name    : String
  tags    : Json
  deriving DecidableEq, Repr

structure RunRecord where
  run_id           : String
  status           : String
  tier             : String
  case_count       : Int
  name             : String
  spec_version     : String
  dataset_version  : String
  created_at       : String
  run_started_at   : Option String
  run_completed_at : Option String
  metrics          : List MetricSpec
  cases            : List SpecCase
  deriving DecidableEq, Repr

-- The rows of the aggregated tables, each with the columns it only shows as one value.
structure MetricRow where
  metric_id         : String
  aggregation_state : String
  method            : String
  value             : Json
  columns           : Json
  deriving DecidableEq, Repr

structure ScoreRow where
  case_id        : String
  metric_id      : String
  score_revision : Int
  columns        : Json
  deriving DecidableEq, Repr

structure CaseRow where
  case_id : String
  status  : String
  columns : Json
  deriving DecidableEq, Repr

inductive Error
  | invalid (problems : List DefinitionProblem)
  | resolution (message : String)
  | key_error (key : String)
  | driver (e : Storage.Error)
  deriving DecidableEq, Repr

-- What the queries of one workspace find.
structure Store where
  latest         : Option String
  run            : Json → Option RunRecord
  metric_results : Json → List MetricRow
  case_scores    : (run_id : String) → (case_id : Json) → (metric_id : Option String) →
    List ScoreRow
  cases          : (run_id : String) → List CaseRow
  cost_summaries : (run_id : String) → List Json

-- A parameter of a query, which the driver may refuse.
def parameter (value : Json) : Except Error Unit :=
  match Storage.State.bind_parameter value with
  | .ok _    => .ok ()
  | .error e => .error (.driver e)

namespace Store

variable (store : Store)

def get_run (run_id : Json) : Except Error (Option RunRecord) := do
  parameter run_id
  return store.run run_id

def get_run_metric_results (run_id : Json) : Except Error (List MetricRow) := do
  parameter run_id
  return store.metric_results run_id

def get_case_scores (run_id : String) (case_id : Json) (metric_id : Option String) :
    Except Error (List ScoreRow) := do
  parameter case_id
  return store.case_scores run_id case_id metric_id

end Store

structure Context where
  store     : Store
  run       : Option RunRecord
  filters   : List (String × Json)
  selection : List (String × Json)

def text : Option String → Json
  | none   => .null
  | some s => .str s

def run_field (repr : Json → String) (run : RunRecord) (name : String) : Except Error Json :=
  match name with
  | "id"               => .ok (.str run.run_id)
  | "status"           => .ok (.str run.status)
  | "tier"             => .ok (.str run.tier)
  | "case_count"       => .ok (.int run.case_count)
  | "name"             => .ok (.str run.name)
  | "spec_version"     => .ok (.str run.spec_version)
  | "dataset_version"  => .ok (.str run.dataset_version)
  | "created_at"       => .ok (.str run.created_at)
  | "run_started_at"   => .ok (text run.run_started_at)
  | "run_completed_at" => .ok (text run.run_completed_at)
  | _                  => .error (.resolution s!"unknown $run field {repr (.str name)}")

inductive Shown
  | pass_rate (scores : List ScoreRow)
  | mean (scores : List ScoreRow)
  | count (scores : List ScoreRow)
  | p95 (value : Json)
  | cost (summaries : List Json)
  | unavailable (reason : String)
  deriving DecidableEq, Repr

structure ShownCase where
  case      : CaseRow
  name      : String
  tags      : List Json
  metrics   : List (MetricSpec × ScoreRow)
  selection : Option (Json × String)
  deriving DecidableEq, Repr

-- What a component shows: the rows it has picked, where the numbers are still to be aggregated.
inductive Payload
  | placeholder (component reason : String)
  | metric_missing (run : RunRecord) (metric stat : Json) (reason : String)
  | metric_summary (run : RunRecord) (metric : MetricSpec) (stat : Json) (stored : Option MetricRow)
    (shown : Shown)
  | run_table (run : RunRecord) (metrics : List (MetricSpec × Option MetricRow))
    (cases : List CaseRow)
  | case_table (run : RunRecord) (metric tag selection_source : Json) (cases : List ShownCase)
  | no_case (run : RunRecord) (message : String)
  | trace_evidence (run : RunRecord) (case_id : Json) (metrics : List (MetricSpec × ScoreRow))
  | filter_bar (filters : List (String × Json))
  deriving DecidableEq, Repr

structure ResolvedBlock where
  component : String
  span      : Int
  position  : Position
  bind      : List (String × Json)
  payload   : Payload
  deriving DecidableEq, Repr

structure ResolvedDashboard where
  name             : String
  version          : Int
  layout           : LayoutDef
  filters          : List FilterDef
  blocks           : List ResolvedBlock
  registry_version : Int
  run              : Option RunRecord
  metrics_complete : Bool
  render_final     : Bool
  deriving Repr

section Resolution

variable (repr : Json → String)

def resolve_ref (value : String) (ctx : Context) : Except Error Json :=
  match binding value with
  | none                    => .error (.resolution s!"invalid binding {repr (.str value)}")
  | some (.filters, name)   => .ok ((ctx.filters.lookup name).getD .null)
  | some (.selection, name) => .ok ((ctx.selection.lookup name).getD .null)
  | some (.run, name)       =>
    match ctx.run with
    | none     => .ok .null
    | some run => run_field repr run name

-- The loop over the bindings of a block.
def resolve_bind (ctx : Context) : List (String × Json) → Except Error (List (String × Json))
  | []                    => .ok []
  | (name, value) :: bind => do
    let value ←
      match value with
      | .str s => if dollar s then resolve_ref repr s ctx else .ok value
      | _      => .ok value
    return (name, value) :: (← resolve_bind ctx bind)

-- `bind.get(name)`
def get (bind : List (String × Json)) (name : String) : Json :=
  (bind.lookup name).getD .null

-- `bind[name]`
def item (bind : List (String × Json)) (name : String) : Except Error Json :=
  match bind.lookup name with
  | none       => .error (.key_error name)
  | some value => .ok value

def bound_run (ctx : Context) (bind : List (String × Json)) : Except Error (Option RunRecord) :=
  let run_id := get bind "run"
  if run_id.truthy then ctx.store.get_run run_id else .ok ctx.run

def no_run (component : String) : Payload :=
  .placeholder component
    "no run bound — the run filter resolved to nothing (no runs in this workspace yet)"

def shown (store : Store) (run : RunRecord) (stored : Option MetricRow) (scores : List ScoreRow)
    (stat : Json) : Shown :=
  if stat = .str "pass_rate" then .pass_rate scores
  else if stat = .str "mean" then .mean scores
  else if stat = .str "count" then .count scores
  else if stat = .str "p95" then
    match stored.filter (·.method = "p95") with
    | some row => .p95 row.value
    | none     =>
      let method := (stored.map (·.method)).getD "unknown"
      .unavailable <| s!"aggregation method is {method}, not p95 — the p95 stat resolves only " ++
        "when the metric aggregates p95"
  else if store.cost_summaries run.run_id ≠ [] then .cost (store.cost_summaries run.run_id)
  else
    .unavailable <| "no cost summaries yet — cost is computed when the run completes " ++
      "(aggregates-only surface; cost never scans trace_events)"

def resolve_metric_summary (bind : List (String × Json)) (ctx : Context) :
    Except Error Payload := do
  match ← bound_run ctx bind with
  | none     => return no_run "metric_summary"
  | some run =>
    let metric_id ← item bind "metric"
    match run.metrics.find? (fun m => Json.pyEq (.str m.metric_id) metric_id) with
    | none        =>
      return .metric_missing run metric_id (get bind "stat")
        s!"metric {repr metric_id} is not in the run's frozen spec"
    | some metric =>
      let rows ← ctx.store.get_run_metric_results (.str run.run_id)
      let stored := rows.find? (·.metric_id = metric.metric_id)
      let scores ← ctx.store.get_case_scores run.run_id .null (some metric.metric_id)
      let stat ← item bind "stat"
      return .metric_summary run metric stat stored (shown ctx.store run stored scores stat)

def resolve_run_table (bind : List (String × Json)) (ctx : Context) : Except Error Payload := do
  match ← bound_run ctx bind with
  | none     => return no_run "run_table"
  | some run =>
    let rows ← ctx.store.get_run_metric_results (.str run.run_id)
    let metrics := run.metrics.map fun m => (m, rows.find? (·.metric_id = m.metric_id))
    return .run_table run metrics (ctx.store.cases run.run_id)

-- The newest row of a metric of a case, the first one where there are several.
def latest_row (records : List ScoreRow) (case_id metric_id : String) : Option ScoreRow :=
  (records.filter fun r => r.case_id = case_id && r.metric_id = metric_id).foldl
    (fun latest r => if latest.all (·.score_revision < r.score_revision) then some r else latest)
    none

-- The tags of a case as a list, where they are a text or a list.
def tag_list (tags : Json) : Option (List Json) :=
  match tags with
  | .str s  => some [.str s]
  | .arr xs => some xs
  | _       => none

def show_case (run : RunRecord) (records : List ScoreRow) (tag single_case selection_source : Json)
    (c : CaseRow) : Option ShownCase :=
  let tc := run.cases.find? (·.case_id = c.case_id)
  let tags := tag_list ((tc.map (·.tags)).getD .null)
  if tag ≠ .null && !tags.any (fun tags => tags.any (Json.pyEq tag)) then none
  else if single_case.truthy && !Json.pyEq (.str c.case_id) single_case then none
  else some {
    case      := c
    name      := (tc.map (·.name)).getD c.case_id
    tags      := tags.getD []
    metrics   := run.metrics.filterMap fun m =>
      (latest_row records c.case_id m.metric_id).map (m, ·)
    selection := if selection_source.truthy then some (selection_source, c.case_id) else none
  }

def resolve_case_table (bind : List (String × Json)) (ctx : Context) : Except Error Payload := do
  match ← bound_run ctx bind with
  | none     => return no_run "case_table"
  | some run =>
    let metric_filter := get bind "metric"
    let scores ← ctx.store.get_case_scores run.run_id .null none
    let records := scores.filter fun r =>
      !metric_filter.truthy || Json.pyEq (.str r.metric_id) metric_filter
    return .case_table run metric_filter (get bind "tag") (get bind "selection") <|
      (ctx.store.cases run.run_id).filterMap <|
        show_case run records (get bind "tag") (get bind "case") (get bind "selection")

def resolve_trace_evidence (bind : List (String × Json)) (ctx : Context) :
    Except Error Payload := do
  match ← bound_run ctx bind with
  | none     => return no_run "trace_evidence"
  | some run =>
    let case_id := get bind "case"
    if !case_id.truthy then
      return .no_case run
        "no case selected — bind a $selection.case reference or a literal case id"
    else
      let records ← ctx.store.get_case_scores run.run_id case_id none
      let newest (m : MetricSpec) :=
        (records.filter (·.metric_id = m.metric_id)).foldl
          (fun latest r =>
            if latest.all (·.score_revision < r.score_revision) then some r else latest)
          none
      return .trace_evidence run case_id <|
        run.metrics.filterMap fun m => (newest m).map (m, ·)

def ComponentSpec.payload (comp : ComponentSpec) (bind : List (String × Json)) (ctx : Context) :
    Except Error Payload :=
  match comp.resolve with
  | .metric_summary => resolve_metric_summary repr bind ctx
  | .run_table      => resolve_run_table bind ctx
  | .case_table     => resolve_case_table bind ctx
  | .trace_evidence => resolve_trace_evidence bind ctx
  | .filter_bar     => .ok (.filter_bar ctx.filters)

def resolve_block (ctx : Context) (block : BlockDef) (position : Position) :
    Except Error ResolvedBlock := do
  let bind ← resolve_bind repr ctx block.bind
  match REGISTRY.lookup block.component with
  | none      => .error (.key_error block.component)
  | some comp =>
    let payload ← comp.payload repr bind ctx
    return ⟨comp.name, block.span, position, bind, payload⟩

def resolve_blocks (ctx : Context) :
    List (BlockDef × Position) → Except Error (List ResolvedBlock)
  | []                        => .ok []
  | (block, position) :: rest => do
    let resolved ← resolve_block repr ctx block position
    return resolved :: (← resolve_blocks ctx rest)

-- The value of a filter: what the request gives, else the default, where a run selector may ask for
-- the latest run.
def filter_value (store : Store) (filters : List (String × Json)) (f : FilterDef) : Json :=
  let requested := get filters f.id
  let value := if requested = .null then f.default else requested
  if f.type = "run_selector" && value = .str "latest" then text store.latest else value

def TERMINAL : List String :=
  ["complete", "failed", "cancelled", "incomplete"]

-- The filter ids are distinct where this is called, as the definition has been validated.
def resolve_valid (d : DashboardDefinition) (filters selection : List (String × Json))
    (store : Store) : Except Error ResolvedDashboard := do
  let resolved_filters := d.filters.map fun f => (f.id, filter_value store filters f)
  let run_id :=
    match d.filters.find? (·.type = "run_selector") with
    | none   => .null
    | some f => get resolved_filters f.id
  let run ← if run_id.truthy then store.get_run run_id else .ok none
  let rows ← if run.isSome then store.get_run_metric_results run_id else .ok []
  let metrics_complete := rows ≠ [] && rows.all (·.aggregation_state = "COMPLETE")
  let ctx : Context := { store, run, filters := resolved_filters, selection }
  let positions := layout_blocks d.blocks d.layout.columns
  let blocks ← resolve_blocks repr ctx (d.blocks.zip positions)
  return {
    name             := d.name
    version          := d.version
    layout           := d.layout
    filters          := d.filters
    blocks
    registry_version := REGISTRY_VERSION
    run
    metrics_complete
    render_final     := run.any (TERMINAL.contains ·.status) && metrics_complete
  }

def resolve_definition (d : DashboardDefinition) (filters selection : List (String × Json))
    (store : Store) : Except Error ResolvedDashboard :=
  match validate_definition repr d with
  | .error problems => .error (.invalid problems)
  | .ok _           => resolve_valid repr d filters selection store

end Resolution

def DEFAULT_DEFINITION : DashboardDefinition where
  version := 3
  name    := "Default run overview"
  layout  := { type := "grid", columns := 12 }
  filters := [⟨"run", "run_selector", .str "latest"⟩, ⟨"case_tag", "tag_filter", .null⟩]
  blocks  := [
    ⟨"run_table", 12, [("run", .str "$filters.run")], by decide⟩,
    ⟨"case_table", 12,
      [("run", .str "$filters.run"), ("tag", .str "$filters.case_tag"), ("selection", .str "case")],
      by decide⟩,
    ⟨"trace_evidence", 12, [("run", .str "$filters.run"), ("case", .str "$selection.case")],
      by decide⟩
  ]

end Dashboard
