import TextOverride.Text.Utf8

namespace TextOverride.Terminal

def isLayout (c : Char) : Bool := c = '\t' ∨ c = '\n' ∨ c = '\x0c' ∨ c = '\r'

/-- Characters that show in plain text: all but the controls of ASCII. -/
def isPrinted (c : Char) : Bool :=
  isLayout c || (0x20 ≤ c.toNat && c.toNat ≠ 0x7F)

inductive Mode
  | text
  | escape
  /-- An escape sequence behind its first intermediate character. -/
  | escapeSequence
  | controlSequence
  | systemCommand
  | deviceControl
  | deviceParameters
  | deviceIntermediates
  | controlString
  deriving DecidableEq, Repr

def inRange (low high : Nat) (c : Char) : Bool :=
  low ≤ c.toNat && c.toNat ≤ high

def isIntermediate (c : Char) : Bool := inRange 0x20 0x2F c

/-- The string terminator is the byte 0x9C, also as a part of a character. -/
def holdsTerminator (c : Char) : Bool := (Utf8.encodeChar c).contains 0x9C

def Mode.afterEscape (c : Char) : Mode :=
  if c = '[' then .controlSequence
  else if c = ']' then .systemCommand
  else if c = 'P' then .deviceControl
  else if c = 'X' ∨ c = '^' ∨ c = '_' then .controlString
  else if isIntermediate c then .escapeSequence
  else if inRange 0x30 0x7E c then .text
  else .escape

/-- The escape character begins anew wherever it stands; cancel and substitute
break off. All other controls and the characters beyond ASCII end nothing, but
for the bell and the terminator of strings. -/
def Mode.next (mode : Mode) (c : Char) : Mode :=
  if c = '\x1b' then .escape
  else if c = '\x18' ∨ c = '\x1a' then .text
  else
    match mode with
    | .text => .text
    | .escape => .afterEscape c
    | .escapeSequence => if inRange 0x30 0x7E c then .text else mode
    | .controlSequence => if inRange 0x40 0x7E c then .text else mode
    | .systemCommand => if c = '\x07' then .text else mode
    | .deviceControl =>
        if isIntermediate c then .deviceIntermediates
        else if inRange 0x30 0x3F c then .deviceParameters
        else if inRange 0x40 0x7E c then .controlString
        else mode
    | .deviceParameters =>
        if isIntermediate c then .deviceIntermediates
        else if inRange 0x3C 0x7E c then .controlString
        else mode
    | .deviceIntermediates =>
        if inRange 0x30 0x7E c then .controlString else mode
    | .controlString => if holdsTerminator c then .text else mode

/-- Inside escape and control sequences a layout character shows. -/
def Mode.shows : Mode → Char → Bool
  | .text, c => isPrinted c
  | .escape, c | .escapeSequence, c | .controlSequence, c => isLayout c
  | _, _ => false

/-- A layout character suspends the sequence around it: what follows is text up
to the next control, where the sequence goes on. -/
structure State where
  mode : Mode
  suspended : Bool
  deriving DecidableEq, Repr

def State.start : State := ⟨.text, false⟩

namespace State

def shows (s : State) (c : Char) : Bool :=
  (s.suspended && isPrinted c) || s.mode.shows c

/-- A character beyond ASCII ends the sequence that it stands in as text. -/
def next (s : State) (c : Char) : State :=
  if s.suspended && isPrinted c then
    if c.toNat < 0x80 then s else .start
  else ⟨s.mode.next c, s.mode.shows c⟩

end State

def visibleFrom (s : State) : Text → Text
  | [] => []
  | c :: rest =>
      if s.shows c then c :: visibleFrom (s.next c) rest
        else visibleFrom (s.next c) rest

/-- What a text shows where nothing carries out its control sequences. -/
def visible (t : Text) : Text := visibleFrom .start t

end TextOverride.Terminal
