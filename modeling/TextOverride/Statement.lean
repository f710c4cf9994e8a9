import TextOverride.Text

namespace TextOverride

structure Statement where
  first : Nat
  last : Nat
  deriving DecidableEq, Repr

inductive NotFound
  | declaration
  | unterminated
  deriving DecidableEq, Repr

def NotFound.message : NotFound → Text
  | .declaration => "declaration not found".toList
  | .unterminated => "statement has no terminator before end of file".toList

structure Locator where
  declaration? : List Text → Text → Option Nat
  terminator? : List Text → Nat → Option Nat

def Locator.locate (locator : Locator) (lines : List Text) (name : Text) :
    Except NotFound Statement :=
  match locator.declaration? lines name with
  | none => .error .declaration
  | some first =>
      match locator.terminator? lines first with
      | none => .error .unterminated
      | some last => .ok ⟨first, last⟩

def Locator.fixed (first last : Option Nat) : Locator where
  declaration? _ _ := first
  terminator? _ _ := last

namespace LineScan

def keywords : List Text := ["const".toList, "let".toList]

def terminator : Char := ';'

/-- The names whose pattern compiles: patterns have a limit on their size. -/
class Patterns where
  accepts : Text → Bool

instance (priority := low) Patterns.unlimited : Patterns := ⟨fun _ => true⟩

def assigns (t : Text) : Bool := (t.dropWhile isBlank).head? == some '='

def namesAfterBlanks (name : Text) : Text → Bool
  | [] => (Text.after? name []).any assigns
  | c :: rest =>
      (Text.after? name (c :: rest)).any assigns || isBlank c &&
        namesAfterBlanks name rest

def binds (name : Text) : Text → Bool
  | [] => false
  | c :: rest => isBlank c && namesAfterBlanks name rest

def opens (name t : Text) : Bool :=
  keywords.any fun keyword => (Text.after? keyword t).any (binds name)

/-- Some part of the line is a keyword, White_Space, the name, possibly
White_Space, and an equals sign. -/
def declares (name : Text) : Text → Bool
  | [] => false
  | c :: rest => opens name (c :: rest) || declares name rest

def terminator? (lines : List Text) (start : Nat) : Option Nat :=
  ((lines.drop start).findIdx? (·.contains terminator)).map (start + ·)

def declaration? [Patterns] (lines : List Text) (name : Text) : Option Nat :=
  if name = [] then none
  else if Patterns.accepts name = false then none
  else lines.findIdx? (declares name)

def locator [Patterns] : Locator where
  declaration? := declaration?
  terminator? := terminator?

def locate [Patterns] : List Text → Text → Except NotFound Statement :=
  locator.locate

end LineScan

end TextOverride
