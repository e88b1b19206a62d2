import Traceline.Knowledge.Discovery
import Traceline.Library.Except
import Traceline.Library.Lines
import Traceline.Text

namespace Knowledge

structure Actor where
  actor_id : String
  read     : Bool
  write    : Bool

inductive Error
  | workflow_error (message code : String) (status : ℕ)
  | forbidden
  | not_found
  | revision_conflict (revision : ℕ)
  | type_error (text : String)
  | raised (text : String)
  deriving DecidableEq, Repr

def invalid (message : String) : Error :=
  .workflow_error message "validation_error" 422

-- The content of a knowledge version. Its `verification_id` is always none.
structure Report where
  source_version_id            : String
  discovery_digest             : String
  needs_entrypoint_declaration : Bool
  review_needed                : Bool
  facts                        : List Fact
  pending_questions            : List Question
  markdown_report              : String
  deriving DecidableEq, Repr

structure Record where
  version_id : String
  revision   : ℕ
  content    : Report
  deriving DecidableEq, Repr

-- The active source version, with what reading the files of its archive gives.
structure Source where
  version_id : String
  files      : Except Error (List (String × String))

-- What users have confirmed: the facts, and the summaries they gave, oldest first.
abbrev Confirmed := List (String × Option String)

-- The versions of a project: the active one of its source, and those of its knowledge with the
-- active one first. `reports` are the reports that were returned, each with what users had
-- confirmed by then. No call reads `confirmed` or `reports`.
structure Project where
  source    : Option Source := none
  knowledge : List Record := []
  confirmed : Confirmed := []
  reports   : List (Report × Confirmed) := []

def Project.revision (p : Project) : ℕ :=
  (p.knowledge.head?.map Record.revision).getD 0

-- `VersionStore.create`: `fresh` is the id of the new version, or what else it raises.
def Project.create (p : Project) (content : Report) (expected_revision : ℕ)
    (fresh : Except Error String) : Except Error (Project × Record) := do
  if expected_revision ≠ p.revision then throw <| .revision_conflict p.revision
  let version_id ← fresh
  let record := { version_id, revision := p.revision + 1, content }
  return ({ p with knowledge := record :: p.knowledge }, record)

-- What `_view` shows of a version.
structure View where
  report_id : String
  revision  : ℕ
  content   : Report
  deriving DecidableEq, Repr

def Record.view (record : Record) : View :=
  ⟨record.version_id, record.revision, record.content⟩

-- A call that returns.
def Project.returning (p : Project) (record : Record) : Project × View :=
  ({ p with reports := p.reports ++ [(record.content, p.confirmed)] }, record.view)

def require (holds : Bool) (error : Error) : Except Error Unit :=
  if holds then return () else throw error

-- A fact that was discovered again keeps what a user said of it.
def merge_fact (prior_facts : Table Fact.fact_id) (fact : Fact) : Fact :=
  match prior_facts.find fact.fact_id with
  | none       => fact
  | some prior =>
    if prior.status = .user_confirmed then
      { fact with
        status           := .user_confirmed
        confirmed_by     := prior.confirmed_by
        summary          := prior.summary.or fact.summary
        original_summary := prior.original_summary.or fact.original_summary
        correction_note  := prior.correction_note.or fact.correction_note }
    else fact

-- A fact that a user confirmed and that is no longer discovered.
def keep_fact (prior : Fact) : Fact :=
  { prior with status := .review_needed, observed_in_attempt_id := none }

def FactStatus.reviewed : FactStatus → Bool
  | .user_confirmed | .review_needed   => true
  | .observed_static | .inferred       => false

def missing_facts (discovered : DiscoveryReport) (prior_facts : Table Fact.fact_id) : List Fact :=
  prior_facts.rows.filter fun prior =>
    !(discovered.facts.map Fact.fact_id).contains prior.fact_id && prior.status.reviewed

-- `by_id.setdefault(item["question_id"], item)` for the questions that were pending.
def merge_questions (pending previous : List Question) : List Question :=
  previous.foldl
    (fun by_id q => if (by_id.map Question.question_id).contains q.question_id then by_id
      else by_id ++ [q])
    (pending.foldl Table.upsert (Table.empty : Table Question.question_id)).rows

def _merge (discovered : DiscoveryReport) (previous : Option Report) : Report :=
  let prior_facts := by_fact_id ((previous.map Report.facts).getD [])
  let missing := missing_facts discovered prior_facts
  let facts := discovered.facts.map (merge_fact prior_facts) ++ missing.map keep_fact
  let pending_questions := match previous with
    | none          => discovered.pending_questions
    | some previous =>
      if previous.pending_questions = [] then discovered.pending_questions
      else
        let pending := merge_questions discovered.pending_questions previous.pending_questions
        if discovered.needs_entrypoint_declaration then pending
        else pending.filter fun q => q.question_id ≠ "entrypoint_declaration"
  let review_needed := missing ≠ []
  let needs_entrypoint_declaration := discovered.needs_entrypoint_declaration
  {
    source_version_id := discovered.source_version_id
    discovery_digest  := discovered.digest
    needs_entrypoint_declaration
    review_needed
    facts
    pending_questions
    markdown_report   := markdown_report
      { needs_entrypoint_declaration, review_needed, facts, pending_questions }
  }

section

variable (st : Static) (py : Python)

-- The source that is active, as it is discovered.
def Project.discovered (p : Project) : Except Error DiscoveryReport :=
  match p.source with
  | none        => throw .not_found
  | some source => return discover st source.version_id (← source.files)

-- The report of this very source is stored already.
def unchanged (discovered : DiscoveryReport) (previous : Report) : Bool :=
  previous.discovery_digest = discovered.digest &&
    previous.source_version_id = discovered.source_version_id

def Project.current (p : Project) (actor : Actor) (fresh : Except Error String) :
    Except Error (Project × View) := do
  require actor.read .forbidden
  let discovered ← p.discovered st
  let merged := _merge discovered (p.knowledge.head?.map Record.content)
  match p.knowledge.head?.filter fun previous => unchanged discovered previous.content with
  | some previous => return p.returning previous
  | none          =>
    require actor.write .forbidden
    let (p, record) ← p.create merged p.revision fresh
    return p.returning record

-- `summary.strip()`
def strip (text : String) : String :=
  String.ofList <| Lines.strip py.isspace text.toList

def confirm_fact (actor : Actor) (summary : Option String) (fact : Fact) : Fact :=
  let fact := { fact with
    status                 := .user_confirmed
    confirmed_by           := some actor.actor_id
    observed_in_attempt_id := none }
  match summary with
  | none         => fact
  | some summary =>
    { fact with
      original_summary := fact.original_summary.or (some <| fact.summary.getD "")
      summary          := some summary
      correction_note  := some summary }

-- The summary of a correction, which may have none.
def correction_summary (kvs : List (String × Json)) : Except Error (Option String) :=
  match kvs.lookup "summary" with
  | none              => return none
  | some (.str text)  =>
    if strip py text = "" then
      throw <| invalid "A correction summary must be non-empty text"
    else return some (strip py text)
  | some _            => throw <| invalid "A correction summary must be non-empty text"

-- `facts.get(key)`
def get_fact (facts : Table Fact.fact_id) : Option Json → Except Error (Option Fact)
  | some (.str fact_id)         => return facts.find fact_id
  | some (.arr _) | some (.obj _) => throw <| .type_error "unhashable type"
  | _                           => return none

def correct (actor : Actor) (facts : Table Fact.fact_id) :
    Json → Except Error (Table Fact.fact_id)
  | .obj kvs => do
    require (kvs.lookup "status" = some (.str "user_confirmed")) <|
      invalid "Corrections must confirm an existing fact"
    match ← get_fact facts (kvs.lookup "fact_id") with
    | none      => throw <| invalid "Unknown fact cannot be confirmed"
    | some fact =>
      let summary ← correction_summary py kvs
      return facts.upsert (confirm_fact actor summary fact)
  | _        => throw <| invalid "Corrections must confirm an existing fact"

-- What a correction confirms.
def confirmation : Json → Option (String × Option String)
  | .obj kvs =>
    match kvs.lookup "fact_id", correction_summary py kvs with
    | some (.str fact_id), .ok summary => some (fact_id, summary)
    | _, _                             => none
  | _        => none

def confirmed_report (current : Report) (discovery_digest : String) (facts : List Fact) : Report :=
  { current with
    discovery_digest
    review_needed   := false
    facts
    markdown_report := markdown_report {
      needs_entrypoint_declaration := current.needs_entrypoint_declaration
      review_needed                := false
      facts
      pending_questions            := current.pending_questions } }

-- What `confirm` does once it has the report that is current.
def Project.confirm_current (p : Project) (current : View) (report_id : String)
    (corrections : List Json) (expected_revision : ℕ) (actor : Actor)
    (fresh : Except Error String) : Except Error (Project × View) := do
  require (current.report_id = report_id) <|
    .workflow_error "Knowledge report is stale; reload before confirming" "conflict" 409
  let facts ← corrections.foldlM (correct py actor) (by_fact_id current.content.facts)
  match p.knowledge.find? (·.version_id = report_id) with
  | none        => throw .not_found
  | some record =>
    let content := confirmed_report current.content record.content.discovery_digest facts.rows
    let (p, record) ← p.create content expected_revision fresh
    let confirmed := p.confirmed ++ corrections.filterMap (confirmation py)
    return { p with confirmed }.returning record

-- A call that fails leaves what `current` stored on the way.
def Project.confirm (p : Project) (report_id : String) (corrections : List Json)
    (expected_revision : ℕ) (actor : Actor) (fresh fresh' : Except Error String) :
    Project × Except Error View :=
  match require actor.write .forbidden >>= fun _ => p.current st actor fresh with
  | .error e      => (p, .error e)
  | .ok (p, view) =>
    match p.confirm_current py view report_id corrections expected_revision actor fresh' with
    | .error e      => (p, .error e)
    | .ok (p, view) => (p, .ok view)

end

end Knowledge
