import Mathlib.Data.List.Basic

-- Bounded parsing of server-sent events.
namespace Streaming

abbrev Bytes := List UInt8

structure StreamFrame where
  event : String
  data  : String
  id    : Option String
  deriving DecidableEq, Repr

inductive StreamProtocolError
  | frame_exceeds_byte_limit
  | malformed_field
  | unsupported_field
  | frame_count_exceeded
  | incomplete_frame
  deriving DecidableEq, Repr

def StreamProtocolError.message : StreamProtocolError → String
  | .frame_exceeds_byte_limit => "SSE frame exceeds byte limit"
  | .malformed_field          => "malformed SSE field"
  | .unsupported_field        => "unsupported SSE field"
  | .frame_count_exceeded     => "SSE frame count exceeded"
  | .incomplete_frame         => "stream ended with an incomplete SSE frame"

structure SSEParser where
  max_frame_bytes : Int
  max_frames      : Int
  _buffer         : Bytes := []
  _fields         : List (String × String) := []
  _frames         : ℕ := 0

namespace SSEParser

-- The lines that a buffer has whole, and what is left of it.
def partition : Bytes → List Bytes × Bytes
  | []        => ([], [])
  | b :: rest =>
    match partition rest with
    | (lines, remainder) =>
      if b = 10 then ([] :: lines, remainder)
      else
        match lines with
        | []            => ([], b :: remainder)
        | line :: lines => ((b :: line) :: lines, remainder)

-- `line.rstrip(b"\r")`
def rstrip (line : Bytes) : Bytes :=
  (line.reverse.dropWhile (· = 13)).reverse

-- `text.split(":", 1)`, for a text with a colon.
def split (text : String) : Option (String × String) :=
  match text.toList.span (· ≠ ':') with
  | (field, _ :: value) => some (String.ofList field, String.ofList value)
  | (_,     [])         => none

def field_names : List String :=
  ["event", "data", "id"]

-- The value of a field, without the space that separates it from the name.
def field_value (value : String) : String :=
  if value.toList.head? = some ' ' then String.ofList (value.toList.drop 1) else value

def check (p : Prop) [Decidable p] (e : StreamProtocolError) : Except StreamProtocolError Unit :=
  if p then .ok () else .error e

def _finish (p : SSEParser) : Except StreamProtocolError (StreamFrame × SSEParser) := do
  check (p._frames + 1 ≤ p.max_frames) .frame_count_exceeded
  let frame := {
    event := (p._fields.lookup "event").getD "message"
    data  := String.intercalate "\n" ((p._fields.filter (·.1 = "data")).map (·.2))
    id    := p._fields.lookup "id" }
  return (frame, { p with _frames := p._frames + 1, _fields := [] })

-- What the decoder of UTF-8 makes of the bytes of a line.
variable (decode : Bytes → Option String)

-- The field that a line holds.
def field (line : Bytes) : Except StreamProtocolError (String × String) :=
  match (decode line).bind split with
  | none                => .error .malformed_field
  | some (field, value) => do
    check (field ∈ field_names) .unsupported_field
    return (field, field_value value)

def line (p : SSEParser) (line : Bytes) : Except StreamProtocolError (List StreamFrame × SSEParser) :=
  match rstrip line with
  | []        =>
    if p._fields = [] then .ok ([], p)
    else do
      let (frame, p) ← p._finish
      return ([frame], p)
  | b :: rest =>
    if b = 58 then .ok ([], p)
    else do
      let kv ← field decode (b :: rest)
      return ([], { p with _fields := p._fields ++ [kv] })

def lines (p : SSEParser) : List Bytes → Except StreamProtocolError (List StreamFrame × SSEParser)
  | []        => .ok ([], p)
  | l :: rest => do
    let (frames, p)  ← p.line decode l
    let (frames', p) ← lines p rest
    return (frames ++ frames', p)

def feed (p : SSEParser) (chunk : Bytes) : Except StreamProtocolError (List StreamFrame × SSEParser) := do
  let buffer := p._buffer ++ chunk
  check (buffer.length ≤ p.max_frame_bytes) .frame_exceeds_byte_limit
  let (whole, remainder) := partition buffer
  let (frames, p) ← lines decode p whole
  return (frames, { p with _buffer := remainder })

def finish (p : SSEParser) : Except StreamProtocolError Unit :=
  check (p._buffer = [] ∧ p._fields = []) .incomplete_frame

-- The frames that a stream yields as its chunks arrive, and how it ends.
def parse (p : SSEParser) : List Bytes → List StreamFrame × Except StreamProtocolError Unit
  | []              => ([], p.finish)
  | chunk :: chunks =>
    match p.feed decode chunk with
    | .error e         => ([], .error e)
    | .ok (frames, p) =>
      let (frames', outcome) := parse p chunks
      (frames ++ frames', outcome)

end SSEParser

end Streaming
