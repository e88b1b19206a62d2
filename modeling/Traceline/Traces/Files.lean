import Traceline.Runner
import Traceline.Library.Lines

-- Trace files: one writer, and the two readers that the kinds of targets have.
namespace Traces

open Events Lines

abbrev Bytes := List UInt8

-- Strict UTF-8.
def encode (text : List Char) : Bytes :=
  (String.ofList text).toByteArray.data.toList

def decode (data : Bytes) : Option (List Char) :=
  (ByteArray.mk ⟨data⟩).utf8Decode?.map (·.toList)

-- `str.isspace`
def isspace (c : Char) : Bool :=
  c.toNat ∈ [0x09, 0x0a, 0x0b, 0x0c, 0x0d, 0x1c, 0x1d, 0x1e, 0x1f, 0x20, 0x85, 0xa0, 0x1680, 0x2000,
    0x2001, 0x2002, 0x2003, 0x2004, 0x2005, 0x2006, 0x2007, 0x2008, 0x2009, 0x200a, 0x2028, 0x2029,
    0x202f, 0x205f, 0x3000]

-- Where a file that is read as text has its lines end.
def newline (c : Char) : Bool :=
  c ∈ ['\n', '\r']

-- Where `str.splitlines` ends a line.
def linebreak (c : Char) : Bool :=
  c.toNat ∈ [0x0a, 0x0b, 0x0c, 0x0d, 0x1c, 0x1d, 0x1e, 0x85, 0x2028, 0x2029]

-- What JSON allows around a value.
def jsonspace (c : Char) : Bool :=
  c ∈ [' ', '\t', '\n', '\r']

-- `model_dump_json` and `model_validate_json` of `TraceEvent`. An event is a JSON object, and control
-- characters are escaped in it.
structure Codec where
  to_jsonl   : TraceEvent → List Char
  from_jsonl : List Char → Except String TraceEvent
  printable  : ∀ e, ∀ c ∈ to_jsonl e, ' ' ≤ c
  object     : ∀ s e, from_jsonl s = .ok e → ∃ w m w', s = w ++ '{' :: (m ++ '}' :: w') ∧
    (∀ c ∈ w, jsonspace c) ∧ (∀ c ∈ w', jsonspace c)
  padded     : ∀ w s w' e, (∀ c ∈ w, jsonspace c) → (∀ c ∈ w', jsonspace c) →
    (from_jsonl (w ++ s ++ w') = .ok e ↔ from_jsonl s = .ok e)
  whole      : ∀ s t e e', from_jsonl s = .ok e → from_jsonl (s ++ t) = .ok e' →
    ∀ c ∈ t, jsonspace c

variable (codec : Codec)

-- `TraceCapture._append`, on what the file has so far.
def _append (data : Bytes) (event : TraceEvent) : Bytes :=
  data ++ encode (codec.to_jsonl event ++ ['\n'])

def written (events : List TraceEvent) : Bytes :=
  events.foldl (_append codec) []

-- What the runner makes of a line.
def trace_line (line : List Char) : Runner.TraceLine :=
  match strip isspace line with
  | []       => .blank
  | stripped =>
    match codec.from_jsonl stripped with
    | .ok event      => .event event
    | .error message => .invalid message

-- The text that has been read where the decoder stops, and its message.
variable (stopped : Bytes → List Char × String)

-- The file as `_read_trace` finds it.
def trace_file : Option Bytes → Runner.TraceFile
  | none      => .missing
  | some data =>
    match decode data with
    | some text =>
      .opened data.length ((lines newline [] text).map (trace_line codec)) .eof
    | none      =>
      .opened data.length ((lines newline [] (stopped data).1).map (trace_line codec))
        (.decode_error (stopped data).2)

-- The parser of `LocalTargetAdapter.invoke`, which makes one outcome of all exceptions.
def trace_events : Option Bytes → Except String (List TraceEvent)
  | none           => .ok []
  | some raw_trace =>
    match decode raw_trace with
    | none      => .error "invalid_trace"
    | some text =>
      ((lines linebreak [] text).filter (nonblank isspace)).mapM codec.from_jsonl
        |>.mapError fun _ => "invalid_trace"

end Traces
