import Traceline.Library.Keys
import Traceline.Library.Table
import Mathlib.Data.List.DropRight
import Mathlib.Data.List.Infix
import Mathlib.Data.String.Basic

-- Static discovery: source is data, never execution evidence.
namespace Knowledge

inductive FactStatus
  | observed_static
  | inferred
  | user_confirmed
  | review_needed
  deriving DecidableEq, Repr

def FactStatus.text : FactStatus → String
  | .observed_static => "observed_static"
  | .inferred        => "inferred"
  | .user_confirmed  => "user_confirmed"
  | .review_needed   => "review_needed"

structure Evidence where
  source_version_id : String
  path              : String
  line_start        : ℕ
  line_end          : ℕ
  deriving DecidableEq, Repr

-- The keys that not every fact has are optional. `confidence` is a float as Python writes it.
structure Fact where
  fact_id                : String
  kind                   : String
  name                   : String
  status                 : FactStatus
  confidence             : String
  evidence               : List Evidence
  confirmed_by           : Option String := none
  observed_in_attempt_id : Option String := none
  summary                : Option String := none
  original_summary       : Option String := none
  correction_note        : Option String := none
  deriving DecidableEq, Repr

structure Question where
  question_id : String
  text        : String
  deriving DecidableEq, Repr

-- What `_call_name` tells apart.
inductive Expr
  | name (id : String)
  | attribute (attr : String)
  | other

-- The nodes of a tree that `discover` looks at: of the targets of an assignment the ones that are
-- names, of its value the text if it is one; of the entries of a returned dict the keys that are
-- text, and whether the value is a call.
inductive Node
  | import_ (names : List String) (lineno : ℕ)
  | import_from (module : Option String) (lineno : ℕ)
  | assign (targets : List (Option String)) (value : Option String) (lineno : ℕ)
  | class_def (name : String) (bases : List Expr) (lineno : ℕ)
  | return_dict (entries : List (Option String × Bool)) (lineno end_lineno : ℕ)
  | other

-- A statement of the module: calls stand with their line.
inductive Stmt
  | call (func : Expr) (lineno : ℕ)
  | if_compare (left : Option String) (calls : List (Expr × ℕ))
  | other

-- `ast.walk(tree)` and `tree.body`
structure Tree where
  walk : List Node
  body : List Stmt

-- `parse` is none where `ast.parse` raises a SyntaxError. `fact_id` and `digest` are hashes.
structure Static where
  parse   : String → String → Option Tree
  lower   : String → String
  fact_id : String → String → String
  digest  : List (String × String × String) → String

def FRAMEWORKS : List String :=
  ["crewai", "langchain", "langgraph", "autogen", "openai"]

def ENTRYPOINT_FILES : List String :=
  ["__main__.py", "main.py", "entrypoint.sh", "agent.py"]

def ENTRYPOINT_CALLS : List String :=
  ["kickoff", "run", "invoke", "main"]

def _INSTRUCTION_MARKERS : List String :=
  ["ignore previous", "system prompt", "you are an", "already verified execution"]

def MODEL_NAMES : List String :=
  ["model", "model_id", "model_name", "llm_model"]

def _call_name : Expr → Option String
  | .name id        => some id
  | .attribute attr => some attr
  | .other          => none

-- `part in text`
def within (part text : String) : Bool :=
  part.toList <:+: text.toList

def ends_with (text suffix : String) : Bool :=
  suffix.toList.isSuffixOf text.toList

-- `text.split(sep, 1)[0]` and `text.rsplit(sep, 1)[-1]`
def before (sep : Char) (text : String) : String :=
  String.ofList <| text.toList.takeWhile (· ≠ sep)

def after_last (sep : Char) (text : String) : String :=
  String.ofList <| text.toList.rtakeWhile (· ≠ sep)

structure DiscoveryReport where
  source_version_id            : String
  facts                        : List Fact
  pending_questions            : List Question
  needs_entrypoint_declaration : Bool
  files                        : List (String × String)
  digest                       : String

section

variable (st : Static) (source_version_id : String)

def _fact (kind name : String) (status : FactStatus) (confidence path : String)
    (start stop : ℕ) : Fact where
  fact_id  := st.fact_id kind name
  kind
  name
  status
  confidence
  evidence := [{ source_version_id, path, line_start := start, line_end := stop }]

def framework_facts (path : String) (lineno : ℕ) (name : String) : List Fact :=
  let root := before '.' name
  if FRAMEWORKS.contains root then
    [_fact st source_version_id "framework" root .observed_static "0.9" path lineno lineno]
  else []

def node_facts (path : String) : Node → List Fact
  | .import_ names lineno         => names.flatMap (framework_facts st source_version_id path lineno)
  | .import_from module lineno    =>
    match module with
    | none        => []
    | some module => if module = "" then [] else framework_facts st source_version_id path lineno module
  | .assign targets value lineno  =>
    match value with
    | none       => []
    | some value =>
      if targets.any fun t => t.any fun id => MODEL_NAMES.contains (st.lower id) then
        [_fact st source_version_id "model" value .observed_static "0.6" path lineno lineno]
      else []
  | .class_def name bases lineno  =>
    if bases.any fun base => ends_with ((_call_name base).getD "") "BaseTool" then
      [_fact st source_version_id "tool" name .observed_static "0.7" path lineno lineno]
    else []
  | .return_dict .. | .other      => []

def _runtime_tool_names (tree : Tree) : List (String × ℕ × ℕ) :=
  tree.walk.flatMap fun
    | .return_dict entries lineno end_lineno =>
      entries.filterMap fun entry =>
        if entry.2 then entry.1.map fun name => (name, lineno, end_lineno) else none
    | _ => []

def entrypoint_facts (path : String) (func : Expr) (lineno : ℕ) : List Fact :=
  match _call_name func with
  | none      => []
  | some name =>
    if ENTRYPOINT_CALLS.contains name then
      [_fact st source_version_id "entrypoint" name .observed_static "0.8" path lineno lineno]
    else []

def stmt_facts (path : String) : Stmt → List Fact
  | .call func lineno          => entrypoint_facts st source_version_id path func lineno
  | .if_compare left calls     =>
    if left = some "__name__" then
      calls.flatMap fun c => entrypoint_facts st source_version_id path c.1 c.2
    else []
  | .other                     => []

-- The facts of a file, and those of them that prove an entrypoint.
def file_facts (path text : String) : List Fact × List Fact :=
  let candidate :=
    if ENTRYPOINT_FILES.contains (after_last '/' path) && ends_with path ".py" then
      [_fact st source_version_id "entrypoint_candidate" path .observed_static "0.4" path 1 1]
    else []
  if _INSTRUCTION_MARKERS.any (within · (st.lower text)) && !ends_with path ".py" then ([], [])
  else if !ends_with path ".py" then (candidate, [])
  else match st.parse text path with
    | none      =>
      (candidate ++
        [_fact st source_version_id "parse_error" path .observed_static "0.9" path 1 1], [])
    | some tree =>
      let entrypoints := tree.body.flatMap (stmt_facts st source_version_id path)
      let tools := (_runtime_tool_names tree).map fun t =>
        _fact st source_version_id "tool" t.1 .inferred "0.3" path t.2.1 t.2.2
      (candidate ++ tree.walk.flatMap (node_facts st source_version_id path) ++ tools ++ entrypoints,
        entrypoints)

-- `{fact["fact_id"]: fact for fact in facts}`
def by_fact_id (facts : List Fact) : Table Fact.fact_id :=
  facts.foldl Table.upsert Table.empty

def entrypoint_declaration : Question where
  question_id := "entrypoint_declaration"
  text        := "Which command should invoke this agent?"

def discover (files : List (String × String)) : DiscoveryReport :=
  let found := (Keys.sort files).map fun f => file_facts st source_version_id f.1 f.2
  let facts := (by_fact_id (found.flatMap Prod.fst)).rows
  let has_entrypoint := found.any fun f => f.2 ≠ []
  {
    source_version_id
    facts
    pending_questions            := if has_entrypoint then [] else [entrypoint_declaration]
    needs_entrypoint_declaration := !has_entrypoint
    files                        := files.filter fun f => ends_with f.1 ".py"
    digest                       := st.digest <|
      (facts.insertionSort (·.fact_id ≤ ·.fact_id)).map fun f => (f.fact_id, f.status.text, f.name)
  }

end

-- What `markdown_report` reads of a report.
structure Reported where
  needs_entrypoint_declaration : Bool
  review_needed                : Bool
  facts                        : List Fact
  pending_questions            : List Question

def truth (b : Bool) : String :=
  if b then "True" else "False"

def fact_line (fact : Fact) : String :=
  let place := match fact.evidence with
    | []     => "?:?"
    | e :: _ => s!"{e.path}:{e.line_start}"
  "- \x60" ++ fact.name ++ "\x60 (" ++ fact.kind ++ ", " ++ fact.status.text ++ ", confidence " ++
    fact.confidence ++ ") — " ++ place

def markdown_report (report : Reported) : String :=
  let questions :=
    if report.pending_questions = [] then []
    else ["", "## Pending questions"] ++ report.pending_questions.map fun q => "- " ++ q.text
  String.intercalate "\n" ([
    "# Project understanding",
    "",
    "Runtime has not been verified. Static findings are not execution evidence.",
    "",
    "- Entrypoint declaration needed: " ++ truth report.needs_entrypoint_declaration,
    "- Review needed: " ++ truth report.review_needed,
    "",
    "## Facts"
  ] ++ report.facts.map fact_line ++ questions) ++ "\n"

end Knowledge
