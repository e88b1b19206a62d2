import Traceline.Json

-- What Python knows about text: the classes of the characters beyond ASCII, the readers of numbers
-- and `repr`.
structure Python where
  digit : Char → Bool
  alpha : Char → Bool
  alnum : Char → Bool
  space : Char → Bool
  int   : List Char → Except String Int
  float : List Char → Except String PyFloat
  repr  : Json → String

namespace Python

variable (py : Python)

def isdigit (c : Char) : Bool :=
  if c.val < 128 then c.isDigit else py.digit c

def isalpha (c : Char) : Bool :=
  if c.val < 128 then c.isAlpha else py.alpha c

def isalnum (c : Char) : Bool :=
  if c.val < 128 then c.isAlphanum else py.alnum c

-- The ASCII characters that `str.strip()` removes.
def isspace (c : Char) : Bool :=
  if c.val < 128 then c ∈ [' ', '\t', '\n', '\r', '\x0b', '\x0c', '\x1c', '\x1d', '\x1e', '\x1f']
  else py.space c

-- The characters of a name after its first one.
def isname (c : Char) : Bool :=
  py.isalnum c || c = '_'

-- Text with no letters or digits beyond ASCII, without floats.
def ascii : Python where
  digit _  := false
  alpha _  := false
  alnum _  := false
  space _  := false
  int cs   := .ok <| cs.foldl (fun n c => 10 * n + (c.toNat - '0'.toNat : ℕ)) 0
  float _  := .error "no float"
  repr _   := ""

end Python
