import TextOverride.Decimal
import TextOverride.Text.Quoted

namespace TextOverride.Json

inductive Found
  | null
  | bool (value : Bool)
  | natural (value : Nat)
  | negative (value : Nat)
  | float (value : Float)
  | string (value : Text)
  | array
  | object

inductive Cause
  | endInValue
  | endInString
  | endInList
  | endInObject
  | valueWanted
  | literalWanted
  | colonWanted
  | listSeparatorWanted
  | objectSeparatorWanted
  | badEscape
  | badNumber
  | numberTooLarge
  | controlCharacter
  | loneSurrogate
  | brokenSurrogatePair
  | keyNotString
  | trailingComma
  | trailingCharacters
  | wrongType (found : Found) (wanted : Text)
  | wrongLength (length : Nat) (wanted : Text)
  | missingField (name : Text)
  | duplicateField (name : Text)

structure Fault where
  cause : Cause
  /-- The number of bytes behind the place of the fault. -/
  left : Nat

namespace Found

/-- Floating point numbers are written out between 0.00001 and 10 ^ 16. -/
def floatLayout : Decimal.Layout := ⟨-5, 15, true⟩

def message : Found → Text
  | .null => "null".toList
  | .bool true => "boolean `true`".toList
  | .bool false => "boolean `false`".toList
  | .natural n => "integer `".toList ++ Text.ofNat n ++ ['`']
  | .negative n => "integer `-".toList ++ Text.ofNat n ++ ['`']
  | .float x => "floating point `".toList ++ floatLayout.writeFloat x ++ ['`']
  | .string t => "string ".toList ++ t.quoted
  | .array => "sequence".toList
  | .object => "map".toList

end Found

def Cause.message : Cause → Text
  | .endInValue => "EOF while parsing a value".toList
  | .endInString => "EOF while parsing a string".toList
  | .endInList => "EOF while parsing a list".toList
  | .endInObject => "EOF while parsing an object".toList
  | .valueWanted => "expected value".toList
  | .literalWanted => "expected ident".toList
  | .colonWanted => "expected `:`".toList
  | .listSeparatorWanted => "expected `,` or `]`".toList
  | .objectSeparatorWanted => "expected `,` or `\x7d`".toList
  | .badEscape => "invalid escape".toList
  | .badNumber => "invalid number".toList
  | .numberTooLarge => "number out of range".toList
  | .controlCharacter =>
      "control character (\\u0000-\\u001F) found while parsing a string".toList
  | .loneSurrogate => "lone leading surrogate in hex escape".toList
  | .brokenSurrogatePair => "unexpected end of hex escape".toList
  | .keyNotString => "key must be a string".toList
  | .trailingComma => "trailing comma".toList
  | .trailingCharacters => "trailing characters".toList
  | .wrongType found wanted =>
      "invalid type: ".toList ++ found.message ++ ", expected ".toList ++ wanted
  | .wrongLength n wanted =>
      "invalid length ".toList ++ Text.ofNat n ++ ", expected ".toList ++ wanted
  | .missingField name => "missing field `".toList ++ name ++ ['`']
  | .duplicateField name => "duplicate field `".toList ++ name ++ ['`']

/-- A line, counted from one, and the number of bytes before a place in it. -/
structure Place where
  line : Nat
  column : Nat
  deriving DecidableEq, Repr

def Place.advance (place : Place) : (count : Nat) → Text → Place
  | 0, _ => place
  | _ + 1, [] => place
  | count + 1, c :: rest =>
      if c = '\n' then advance ⟨place.line + 1, 0⟩ count rest
      else
        advance ⟨place.line, place.column + min c.utf8Size (count + 1)⟩
          (count + 1 - c.utf8Size) rest

def Fault.place (fault : Fault) (text : Text) : Place :=
  Place.advance ⟨1, 0⟩ (text.byteSize - fault.left) text

def Fault.message (fault : Fault) (text : Text) : Text :=
  let place := fault.place text
  fault.cause.message ++ " at line ".toList ++ Text.ofNat place.line ++
    " column ".toList ++ Text.ofNat place.column

def Fault.here (cause : Cause) (rest : Text) : Fault := ⟨cause, rest.byteSize⟩

/-- Blames the next byte as well, if there is one. -/
def Fault.ahead (cause : Cause) (rest : Text) : Fault :=
  ⟨cause, rest.byteSize - 1⟩

end TextOverride.Json
