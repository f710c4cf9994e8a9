import TextOverride.Text.Utf8
import TextOverride.TextMap

namespace TextOverride

abbrev Prompts := TextMap Text

namespace Prompts

def isKeyChar (c : Char) : Bool := c.isAlpha || c == '_'

/-- The key of a line that is a key, a colon and White_Space. -/
def keyLine? (line : Text) : Option Text :=
  match line.takeWhile isKeyChar, line.dropWhile isKeyChar with
  | [], _ => none
  | key, ':' :: rest => if Text.Blank rest then some key else none
  | _, _ => none

def dedent : Text → Text
  | ' ' :: ' ' :: rest => rest
  | line => line

def trimEnd : List Text → List Text
  | [] => []
  | line :: rest =>
      match trimEnd rest with
      | [] => if Text.Blank line then [] else [line]
      | kept => line :: kept

def trim (lines : List Text) : List Text := trimEnd (lines.dropWhile Text.blank)

def join (lines : List Text) : Text := ['\n'].intercalate lines

structure Section where
  key : Text
  body : List Text

def Section.value (s : Section) : Text := join (trim (s.body.map dedent))

def Section.pair (s : Section) : Text × Text := (s.key, s.value)

def sections : List Text → List Text × List Section
  | [] => ([], [])
  | line :: rest =>
      let (body, later) := sections rest
      match keyLine? line with
      | some key => ([], ⟨key, body⟩ :: later)
      | none => (line :: body, later)

def unmark : Text → Text
  | '\uFEFF' :: rest => rest
  | t => t

/-- A section runs from its key line to the next one. Lines before the first
section belong to nothing, and of two with one key the later one counts. -/
def parse (t : Text) : Prompts :=
  .ofList ((sections (unmark t).lines).2.map Section.pair)

def parseBytes (bytes : Utf8.Bytes) : Except Utf8.Fault Prompts :=
  (Utf8.decode bytes).map parse

end Prompts

end TextOverride
