import TextOverride.Misuse

namespace TextOverride

namespace Injection

def delimiter : Char := '`'

def marker : Text := "// Injected by patcher.py".toList

/-- A backslash takes the next character as it is. -/
def escapeChar (c : Char) : Text :=
  if c = '\\' ∨ c = delimiter then ['\\', c] else [c]

def escape (value : Text) : Text := value.flatMap escapeChar

def assignment (name value : Text) : Text :=
  name ++ " = ".toList ++ delimiter :: escape value ++
    delimiter :: "; ".toList ++ marker

end Injection

inductive LineEnding
  | lf
  | crlf
  deriving DecidableEq, Repr

namespace LineEnding

def text : LineEnding → Text
  | .lf => ['\n']
  | .crlf => ['\r', '\n']

def of? (line : Text) : Option LineEnding :=
  if ['\r', '\n'] <:+ line then some .crlf
  else if ['\n'] <:+ line then some .lf
  else none

/-- The ending that most lines have; a line feed in doubt. -/
def dominant (lines : List Text) : LineEnding :=
  if lines.countP (of? · == some .lf) < lines.countP (of? · == some .crlf) then
    .crlf else .lf

end LineEnding

namespace Injection

/-- Puts the assignment after line `anchor`. A terminated anchor lends its
ending to the assignment; an unterminated one gets an ending of its own, so that
the assignment is the new unterminated last line. -/
def insert (lines : List Text) (anchor : Fin lines.length) (name value : Text) :
    List Text :=
  let line := lines[anchor]
  let placed :=
    match LineEnding.of? line with
    | some ending => [line, assignment name value ++ ending.text]
    | none => [line ++ (LineEnding.dominant lines).text, assignment name value]
  lines.take anchor ++ placed ++ lines.drop (anchor + 1)

def insert? (lines : List Text) (anchor : Nat) (name value : Text) :
    Except Misuse (List Text) :=
  if h : anchor < lines.length then .ok (insert lines ⟨anchor, h⟩ name value)
  else .error .anchorOutOfRange

end Injection

end TextOverride
