import TextOverride.Error
import TextOverride.TextMap

namespace TextOverride

abbrev AllowList := TextMap Unit

namespace AllowList

def ofNames (names : List Text) : AllowList := .ofList (names.map (·, ()))

def standard : AllowList :=
  ofNames ["SUMMARIZE_TOOL_OUTPUT_PROMPT".toList, "EDIT_SYS_PROMPT".toList]

def contains (allow : AllowList) (name : Text) : Bool :=
  (allow.get? name).isSome

def startsIdentifier (c : Char) : Bool := c.isAlpha || c == '_' || c == '$'

def continuesIdentifier (c : Char) : Bool := startsIdentifier c || c.isDigit

def isIdentifier : Text → Bool
  | [] => false
  | c :: rest => startsIdentifier c && rest.all continuesIdentifier

/-- Of several names that are no identifiers the least is blamed. -/
def flaw? (allow : AllowList) : Option AllowListFlaw :=
  if allow.isEmpty then some .empty
  else (allow.keys.find? fun name => !isIdentifier name).map .notIdentifier

end AllowList

end TextOverride
