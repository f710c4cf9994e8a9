import TextOverride.Text

namespace TextOverride

/-- Requests that no caller may make. -/
inductive Misuse
  | anchorOutOfRange
  | requestIdZero
  deriving DecidableEq, Repr

def Misuse.message : Misuse → Text
  | .anchorOutOfRange => "end_line must index an existing line".toList
  | .requestIdZero => "Logger rid must be non-zero".toList

end TextOverride
