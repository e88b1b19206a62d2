import Traceline.Json

namespace Redaction

-- The compiled patterns. Each of the first four is `sub` where `search` finds a match, and none
-- where it does not.
structure Patterns where
  canary         : String → Option String
  provider_token : String → Option String
  bearer         : String → Option String
  secret         : String → Option String
  sensitive_key  : String → Bool

-- What one call of `redact` has detected so far.
structure Flags where
  canary    : Bool := false
  header    : Bool := false
  secret    : Bool := false
  token     : Bool := false
  truncated : Bool := false
  deriving DecidableEq, Repr

structure RedactedPayload where
  content        : Json
  version        : String
  detector_flags : List String
  truncated      : Bool
  deriving DecidableEq, Repr

def REDACTION_VERSION : String :=
  "2026-09-01"

-- The characters of the longest prefix of at most `limit` bytes: decoding with `errors="ignore"`
-- drops a character that was cut.
def takeBytes (limit : ℕ) : List Char → List Char
  | []      => []
  | c :: cs => if c.utf8Size ≤ limit then c :: takeBytes (limit - c.utf8Size) cs else []

namespace Patterns

variable (p : Patterns) (max_string_bytes : ℕ)

def clean_text (value : String) (flags : Flags) : String × Flags :=
  let (value, flags) := step p.canary (fun f => { f with canary := true }) value flags
  let (value, flags) := step p.provider_token (fun f => { f with token := true }) value flags
  let (value, flags) := step p.bearer (fun f => { f with token := true }) value flags
  let (value, flags) := step p.secret (fun f => { f with secret := true }) value flags
  if value.utf8ByteSize > max_string_bytes then
    let suffix := "…[TRUNCATED]"
    let limit := max_string_bytes - suffix.utf8ByteSize
    (String.ofList (takeBytes limit value.toList) ++ suffix, { flags with truncated := true })
  else (value, flags)
where
  step (sub : String → Option String) (flag : Flags → Flags) (value : String) (flags : Flags) :
      String × Flags :=
    match sub value with
    | some value => (value, flag flags)
    | none       => (value, flags)

mutual

def walk : Json → Flags → Json × Flags
  | .str s, flags =>
    let (s, flags) := p.clean_text max_string_bytes s flags
    (.str s, flags)
  | .arr xs, flags =>
    let (xs, flags) := walkList xs flags
    (.arr xs, flags)
  | .obj kvs, flags =>
    let (kvs, flags) := walkFields kvs flags
    (.obj kvs, flags)
  | .null, flags    => (.null, flags)
  | .bool b, flags  => (.bool b, flags)
  | .int n, flags   => (.int n, flags)
  | .float x, flags => (.float x, flags)

def walkList : List Json → Flags → List Json × Flags
  | [], flags => ([], flags)
  | x :: xs, flags =>
    let (x, flags) := walk x flags
    let (xs, flags) := walkList xs flags
    (x :: xs, flags)

def walkFields : List (String × Json) → Flags → List (String × Json) × Flags
  | [], flags => ([], flags)
  | (k, v) :: kvs, flags =>
    let (v, flags) :=
      if p.sensitive_key k then (.str "[REDACTED]", { flags with header := true })
      else walk v flags
    let (kvs, flags) := walkFields kvs flags
    ((k, v) :: kvs, flags)

end

def redact (payload : Json) : RedactedPayload :=
  let (content, flags) := p.walk max_string_bytes payload {}
  {
    content
    version        := REDACTION_VERSION
    detector_flags :=
      [("canary", flags.canary), ("header", flags.header), ("secret", flags.secret),
        ("token", flags.token)].filterMap fun (name, found) => if found then some name else none
    truncated      := flags.truncated
  }

end Patterns

end Redaction
