import Traceline.Evaluators.Evaluate
import Traceline.Library.Lines
import Traceline.Text

-- The subset of JSONPath that a target may select with.
namespace Evaluators

variable (py : Python)

def repr_chars (cs : List Char) : String :=
  py.repr (.str (String.ofList cs))

-- `_selector_tokens`, from position `i` of the text after the `$` on.
def selector_tokens (selector : List Char) (i : ℕ) (cs : List Char) :
    Except Exc (List SelectorToken) :=
  match cs with
  | []      => .ok []
  | c :: cs =>
    if c = '.' then
      if cs.head? = some '.' then
        .error <| .evaluation <|
          "recursive descent '$..' is not in the supported subset: " ++ repr_chars py selector
      else if cs.head? = some '*' then do
        let tokens ← selector_tokens selector (i + 2) (cs.drop 1)
        return .wildcard :: tokens
      else
        let word := cs.takeWhile py.isname
        if word = [] then
          .error <| .evaluation <|
            "unsupported selector segment near " ++ repr_chars py (selector.take (i + 2))
        else do
          let tokens ← selector_tokens selector (i + 1 + word.length) (cs.dropWhile py.isname)
          return .key (String.ofList word) :: tokens
    else if c = '[' then
      let inside := cs.takeWhile (· ≠ ']')
      let inner := Lines.strip py.isspace inside
      if ']' ∉ cs then
        .error <| .evaluation <| "unterminated '[' in selector " ++ repr_chars py selector
      else if inner = ['*'] then do
        let tokens ← selector_tokens selector (i + inside.length + 2) (cs.drop (inside.length + 1))
        return .wildcard :: tokens
      else if inner ≠ [] ∧ inner.all py.isdigit then do
        let n ← (py.int inner).mapError Exc.value
        let tokens ← selector_tokens selector (i + inside.length + 2) (cs.drop (inside.length + 1))
        return .index n.toNat :: tokens
      else
        .error <| .evaluation <|
          "unsupported selector bracket " ++ repr_chars py inner ++ "; supported: [N], [*] (" ++
            repr_chars py selector ++ ")"
    else
      .error <| .evaluation <|
        "unsupported selector character " ++ repr_chars py [c] ++ " in " ++ repr_chars py selector ++
          "; supported subset: $, .key, [N], .*, [*]"
termination_by cs.length
decreasing_by all_goals simp +arith [List.length_dropWhile_le]

-- What `_select_from` reads of a selector before it looks at the document.
def selector (s : String) : Except Exc (List SelectorToken) :=
  match s.toList with
  | '$' :: rest => selector_tokens py s.toList 0 rest
  | _           =>
    .error <| .evaluation <|
      "selector must be a JSONPath starting with '$', got " ++ repr_chars py s.toList

end Evaluators
