import TextOverride.Text

namespace TextOverride

abbrev Path := Text

namespace Path

def separator : Char := '/'

def names : Path → List Text
  | [] => [[]]
  | c :: rest =>
      if c = separator then [] :: names rest else Text.prepend c (names rest)

def ofNames (names : List Text) : Path := [separator].intercalate names

def isAbsolute (p : Path) : Bool := p.head? == some separator

def parent : Text := ['.', '.']

/-- A name that leads nowhere else. -/
def isTrivial (name : Text) : Bool := name == [] || name == ['.']

/-- The names behind another one ask for a directory there: all are trivial, or
the first one that is not is the name of the parent. -/
def asksDirectory (names : List Text) : Bool :=
  names != [] && (names.dropWhile isTrivial).head?.all (· == parent)

/-- An absolute right side replaces the left one. -/
def join (base p : Path) : Path :=
  if isAbsolute p then p
  else if base = [] ∨ base.getLast? = some separator then base ++ p
  else base ++ separator :: p

/-- The target below a base directory; nothing when it could lie outside. -/
def confine? (base target : Path) : Option Path :=
  if isAbsolute target ∨ parent ∈ names target then none else
    some (join base target)

/-- The last name that is not trivial, unless it leads to a parent. -/
def fileName? (p : Path) : Option Text :=
  (((names p).filter fun name => !isTrivial name).getLast?).filter (· != parent)

def dropTrivialEnd (names : List Text) : List Text :=
  (names.reverse.dropWhile isTrivial).reverse

/-- The names before the file name; a leading `.` stays. -/
def directoryNames (names : List Text) : List Text :=
  let before := dropTrivialEnd ((dropTrivialEnd names).dropLast)
  if before = [] ∧ names.head? = some ['.'] then [['.']] else before

def directory : Path → Path
  | '/' :: rest =>
      separator ::
        ofNames (dropTrivialEnd (dropTrivialEnd (names rest)).dropLast)
  | p => ofNames (directoryNames (names p))

def withFileName (p : Path) (name : Text) : Path :=
  if (fileName? p).isSome then join (directory p) name else join p name

end Path

end TextOverride
