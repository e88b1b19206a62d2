import Traceline.Evaluators.Evaluate
import Traceline.Library.Except
import Traceline.Predicates.Parser
import Traceline.TraceRules.Validate

-- The evaluation of a rule over the events of one attempt.
namespace TraceRules

open Events
open Evaluators (RuleResult Exc dedupe_ids sort_key sort_events)

-- The exceptions of an evaluation. The first three are a TraceRuleError.
inductive Error
  | where_clause (message : String)
  | anchorless (message : String)
  | malformed (message : String)
  | other (message : String)
  deriving DecidableEq, Repr

def Error.exc : Error → Exc
  | .where_clause message | .anchorless message | .malformed message => .evaluation message
  | .other message                                                   => .value message

-- What an evaluation is about.
structure Context where
  lang   : Predicates.Language
  events : List TraceEvent

def ids (events : List TraceEvent) : List String :=
  events.map (·.event_id)

-- `_fallback_key(a) < _fallback_key(b)`
def key_lt (a b : TraceEvent) : Except Error Bool :=
  if a.timestamp.offset.isSome = b.timestamp.offset.isSome then .ok (sort_key a < sort_key b)
  else .error (.other "can't compare offset-naive and offset-aware datetimes")

-- The later of two events, where the new one is earlier than the anchor at all.
def keep_later (anchor : TraceEvent) (best : Option TraceEvent) (event : TraceEvent) :
    Except Error (Option TraceEvent) := do
  let earlier ← key_lt event anchor
  match earlier, best with
  | false, best      => return best
  | true,  none      => return some event
  | true,  some last => do
    let beats ← key_lt last event
    return some (if beats then event else last)

-- `abs((a - b).total_seconds() * 1000.0) <= ms`
def within_window (a b : Timestamp) (ms : Int) : Except Error Bool :=
  let near (micros : Int) : Bool :=
    |PyFloat.nearest (PyFloat.nearest (micros / 1000000) * 1000)| ≤ ms
  match a.offset, b.offset with
  | some x, some y => .ok <| near <| (a.wall - x * 1000000) - (b.wall - y * 1000000)
  | none,   none   => .ok <| near <| a.wall - b.wall
  | _,      _      => .error (.other "can't subtract offset-naive and offset-aware datetimes")

-- One turn of `min` over the timestamps.
def earliest (start : Timestamp) (event : TraceEvent) : Except Error Timestamp := do
  let earlier ← (event.timestamp.lt start).mapError Error.other
  return if earlier then event.timestamp else start

-- The least timestamp, of several equal ones the first.
def attempt_start (events : List TraceEvent) : Except Error (Option Timestamp) :=
  match events with
  | []              => .ok none
  | event :: events => do
    let start ← events.foldlM earliest event.timestamp
    return some start

namespace Context

variable (x : Context)

-- `by_id.get(id)`, where the last event with an id stands for it.
def event? (id : String) : Option TraceEvent :=
  x.events.reverse.find? (·.event_id = id)

-- The loop of `_is_ancestor` along the parents.
def climb (id : String) : ℕ → Option TraceEvent → Bool
  | 0,        _        => false
  | _ + 1,    none     => false
  | fuel + 1, some cur => cur.event_id = id || climb id fuel (cur.parent_event_id.bind x.event?)

-- `_is_ancestor`, which gives up after as many steps as there are ids.
def is_ancestor (ancestor desc : TraceEvent) : Bool :=
  x.climb ancestor.event_id ((ids x.events).dedup.length + 1) (desc.parent_event_id.bind x.event?)

def precedes (e₁ e₂ : TraceEvent) : Except Error Bool :=
  if x.is_ancestor e₁ e₂ then .ok true
  else if x.is_ancestor e₂ e₁ then .ok false
  else key_lt e₁ e₂

def follows (e₁ e₂ : TraceEvent) : Except Error Bool :=
  if x.is_ancestor e₂ e₁ then .ok true
  else if x.is_ancestor e₁ e₂ then .ok false
  else key_lt e₂ e₁

-- `_compile_where`, without its cache.
def compile_where : Json → Except Error Predicates.Predicate
  | .str text =>
    match x.lang.compile text (if Predicates.needs_cel text then some .cel else some .prototype) with
    | .ok predicate              => .ok predicate
    | .error (.value message)    => .error (.other message)
    | .error (.semantic message) =>
      .error <| .where_clause s!"match.where does not compile: {message}"
    | .error (.syntax_error _ position message) =>
      .error <| .where_clause s!"match.where does not compile: {message} (at position {position})"
  | _ => .error (.other "predicate text must be a str")

-- Whether an event passes the criteria of a match.
def selects (pattern : Node) (event : TraceEvent) : Except Error Bool :=
  let source := get pattern "source"
  let tool := get pattern "tool"
  let clause := get pattern "where"
  if Json.str event.type.toString ≠ get pattern "event" then .ok false
  else if source ≠ .null ∧ Json.str event.source.toString ≠ source then .ok false
  else if source = .null ∧ event.source = .runner then .ok false
  else if tool ≠ .null ∧ event.tool.map Json.str ≠ some tool then .ok false
  else if clause = .null then .ok true
  else do
    let predicate ← x.compile_where clause
    (predicate event).mapError Error.other

-- What a window is measured from.
def origin (anchor : Option TraceEvent) : Except Error (Option Timestamp) :=
  match anchor with
  | some anchor => .ok (some anchor.timestamp)
  | none        => attempt_start x.events

def in_window (anchor : Option TraceEvent) (window : Option Int) (events : List TraceEvent) :
    Except Error (List TraceEvent) :=
  match window with
  | none    => .ok events
  | some ms => do
    let start ← x.origin anchor
    Except.filter (fun event =>
      match start with
      | none       => .ok false
      | some start => within_window event.timestamp start ms) events

-- `_match`
def matching (pattern : Node) (anchor : Option TraceEvent) (window : Option Int) :
    Except Error (List TraceEvent) := do
  let source := get pattern "source"
  if source ≠ .null ∧ source ∉ sources then
    throw (.malformed s!"match.source must be proxy|adapter|runner, got {x.lang.py.repr source}")
  let out ← Except.filter (x.selects pattern) x.events
  let out ← x.in_window anchor window out
  (sort_events out).mapError (.other ·.message)

-- One turn of the loop of `_immediate_predecessors`, which keeps the latest event so far.
def later (anchor : TraceEvent) (best : Option TraceEvent) (event : TraceEvent) :
    Except Error (Option TraceEvent) :=
  if event.event_id = anchor.event_id then .ok best
  else if x.is_ancestor anchor event then .ok best
  else keep_later anchor best event

def immediate_predecessors (candidates : List TraceEvent) (anchor : TraceEvent) :
    Except Error (List TraceEvent) :=
  match anchor.parent_event_id with
  | some parent => .ok <| candidates.filter (·.event_id = parent)
  | none        => do
    match ← x.events.foldlM (x.later anchor) none with
    | none      => return []
    | some best => return candidates.filter (·.event_id = best.event_id)

-- What a node evaluates to, given how its child nodes do.
abbrev Children := Option TraceEvent → Json → Except Error RuleResult

def shown (node : Node) : String :=
  x.lang.py.repr (get node "op")

def eval_and_or (eval : Children) (op : Op) (anchor : Option TraceEvent) (node : Node) :
    Except Error RuleResult :=
  match children? node with
  | none       => .error (.malformed s!"op {x.shown node} requires a non-empty 'rules' list")
  | some rules => do
    let results ← rules.mapM (eval anchor)
    let result := if op = .and then results.all (·.result) else results.any (·.result)
    return {
      result
      matched := dedupe_ids <| results.flatMap (·.matched)
      failing :=
        if result then []
        else dedupe_ids <|
          (results.filter fun r => !r.result).flatMap fun r => r.matched ++ r.failing
    }

def eval_not (eval : Children) (anchor : Option TraceEvent) (node : Node) :
    Except Error RuleResult :=
  match object? node "rule" with
  | none       => .error (.malformed "op 'not' requires a 'rule' child")
  | some child => do
    let cr ← eval anchor (.obj child)
    return {
      result  := !cr.result
      matched := cr.matched
      failing := if cr.result then [] else dedupe_ids (cr.matched ++ cr.failing)
    }

def eval_implies (eval : Children) (anchor : Option TraceEvent) (node : Node) :
    Except Error RuleResult :=
  match object? node "rule" with
  | none            => .error (.malformed "op 'implies' requires a 'rule' antecedent")
  | some antecedent =>
    match get node "rules" with
    | .arr [consequent] => do
      let ar ← eval anchor (.obj antecedent)
      let br ← eval anchor consequent
      let result := !ar.result || br.result
      return {
        result
        matched := dedupe_ids (ar.matched ++ br.matched)
        failing :=
          if result then []
          else dedupe_ids (ar.matched ++ ar.failing ++ br.matched ++ br.failing)
      }
    | _ =>
      .error <| .malformed <| "op 'implies' requires 'rules' with exactly one consequent — " ++
        "'A implies B' needs both an antecedent (rule) and a consequent (rules) (§9A.3)"

def bad_window : Error :=
  .malformed "'within_ms' filter must be an int (milliseconds)"

def eval_for_all (eval : Children) (anchor : Option TraceEvent) (node : Node) :
    Except Error RuleResult :=
  match object? node "match", object? node "assert" with
  | some pattern, some rule =>
    match window? (get node "within_ms") with
    | none        => .error bad_window
    | some window => do
      let candidates ← x.matching pattern anchor window
      let results ← candidates.mapM fun event => eval (some event) (.obj rule)
      let failed := results.filter fun r => !r.result
      return {
        result  := failed = []
        matched := ids candidates
        failing := dedupe_ids <| failed.flatMap fun r => r.matched ++ r.failing
      }
  | _, _ => .error (.malformed "op 'for_all' requires a 'match' and an 'assert' rule")

def eval_within_ms (anchor : Option TraceEvent) (node : Node) : Except Error RuleResult :=
  match int? (get node "ms"), object? node "match" with
  | some ms, some pattern => do
    let candidates ← x.matching pattern anchor (some ms)
    return {
      result  := candidates ≠ []
      matched := ids candidates
    }
  | _, _ =>
    .error <| .malformed "op 'within_ms' requires 'ms' (int milliseconds) and a 'match'"

-- The events that `exists_before`, `exists_after` and `immediately_precedes` ask for.
def satisfying (op : Op) (candidates : List TraceEvent) (anchor : TraceEvent) :
    Except Error (List TraceEvent) :=
  match op with
  | .exists_before => Except.filter (fun event => x.precedes event anchor) candidates
  | .exists_after  => Except.filter (fun event => x.follows event anchor) candidates
  | _              => x.immediate_predecessors candidates anchor

-- The match of a node and its optional window.
def candidates (anchor : Option TraceEvent) (node : Node) : Except Error (List TraceEvent) :=
  match object? node "match" with
  | none         => .error (.malformed s!"op {x.shown node} requires a 'match' object")
  | some pattern =>
    match window? (get node "within_ms") with
    | none        => .error bad_window
    | some window => x.matching pattern anchor window

def eval_anchored (op : Op) (anchor : Option TraceEvent) (node : Node) :
    Except Error RuleResult :=
  match anchor with
  | none        =>
    .error <| .anchorless <| s!"op {x.shown node} requires an anchor event — evaluate it as a " ++
      "for_all 'assert' or inside a compound that carries the anchor; at the rule root there " ++
      "is no anchor (§9A.3)"
  | some anchor => do
    let candidates ← x.candidates (some anchor) node
    let found ← x.satisfying op candidates anchor
    return {
      result  := found ≠ []
      matched := ids found
      failing := if found = [] then ids candidates else []
    }

def eval_match_bearing (op : Op) (anchor : Option TraceEvent) (node : Node) :
    Except Error RuleResult := do
  let candidates ← x.candidates anchor node
  let matched := ids candidates
  match op with
  | .exists => return { result := candidates ≠ [], matched }
  | .never  =>
    return { result := candidates = [], matched, failing := if candidates = [] then [] else matched }
  | _       => return { result := true, matched, value := some candidates.length }

-- `_eval_node`, by what is left of the depth.
def eval_node : ℕ → Children
  | 0,        _,      _         => .error (.malformed "trace-rule nesting exceeds 100 levels")
  | left + 1, anchor, .obj node =>
    match op? node with
    | none =>
      .error <| .malformed <| s!"unknown trace-rule op {x.shown node}; closed set: " ++
        repr_names x.lang.py (TRACE_RULE_OPS.map Op.toString)
    | some op =>
      match op with
      | .and | .or  => x.eval_and_or (eval_node left) op anchor node
      | .not        => eval_not (eval_node left) anchor node
      | .implies    => eval_implies (eval_node left) anchor node
      | .for_all    => x.eval_for_all (eval_node left) anchor node
      | .within_ms  => x.eval_within_ms anchor node
      | .exists_before | .exists_after | .immediately_precedes => x.eval_anchored op anchor node
      | .exists | .never | .count                              => x.eval_match_bearing op anchor node
  | _ + 1,    _,      _         => .error (.malformed "a trace-rule node must be a JSON object")

end Context

-- `evaluate_rule`
def evaluate_rule (lang : Predicates.Language) (rule : Node) (events : List TraceEvent)
    (anchor : Option TraceEvent) : Except Error RuleResult :=
  Context.eval_node ⟨lang, events⟩ MAX_DEPTH anchor (.obj rule)

end TraceRules
