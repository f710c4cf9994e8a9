import TextOverride.Text

namespace TextOverride.Json

structure Number where
  negative : Bool
  whole : Nat
  fraction : List (Fin 10)
  exponent : Option Int
  deriving DecidableEq, Repr

def Number.ofNat (n : Nat) : Number := ⟨false, n, [], none⟩

inductive Document
  | null
  | bool (value : Bool)
  | number (value : Number)
  | string (value : Text)
  | array (elements : List Document)
  | object (members : List (Text × Document))

namespace Number

def digit (d : Fin 10) : Char := Nat.digitChar d

def exponentText (e : Int) : Text :=
  'e' :: (if e < 0 then ['-'] else []) ++ Text.ofNat e.natAbs

def write (n : Number) : Text :=
  (if n.negative then ['-'] else []) ++ Text.ofNat n.whole ++
    (if n.fraction = [] then [] else '.' :: n.fraction.map digit) ++
    (n.exponent.map exponentText).getD []

end Number

def hexDigit (n : Nat) : Char := Nat.digitChar n

def writeChar (c : Char) : Text :=
  if c = '"' ∨ c = '\\' then ['\\', c]
  else if c = '\x08' then ['\\', 'b']
  else if c = '\t' then ['\\', 't']
  else if c = '\n' then ['\\', 'n']
  else if c = '\x0c' then ['\\', 'f']
  else if c = '\r' then ['\\', 'r']
  else if c < ' ' then
    ['\\', 'u', '0', '0', hexDigit (c.toNat / 16), hexDigit (c.toNat % 16)]
  else [c]

def writeString (t : Text) : Text := '"' :: t.flatMap writeChar ++ ['"']

namespace Document

mutual
def write : Document → Text
  | .null => "null".toList
  | .bool true => "true".toList
  | .bool false => "false".toList
  | .number n => n.write
  | .string t => writeString t
  | .array [] => ['[', ']']
  | .array (element :: rest) => '[' :: write element ++ writeElements rest
  | .object [] => ['\x7b', '\x7d']
  | .object ((key, value) :: rest) =>
      '\x7b' :: writeString key ++ ':' :: write value ++ writeMembers rest

def writeElements : List Document → Text
  | [] => [']']
  | element :: rest => ',' :: write element ++ writeElements rest

def writeMembers : List (Text × Document) → Text
  | [] => ['\x7d']
  | (key, value) :: rest =>
      ',' :: writeString key ++ ':' :: write value ++ writeMembers rest
end

end Document

end TextOverride.Json
