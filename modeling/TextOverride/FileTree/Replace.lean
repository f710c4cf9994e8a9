import TextOverride.FileTree

namespace TextOverride.FileTree

/-- Why a step of a replacement is refused for reasons that do not lie in the
tree, such as a full disk, a quota or another file system. A removal never
is. -/
class Device where
  create : Place → Option OsError
  /-- The number of bytes that were written before. -/
  write : Place → Utf8.Bytes → Option (Nat × OsError)
  sync : Place → Option OsError
  setMode : Place → Nat → Option OsError
  rename : Place → Place → Option OsError

instance (priority := low) Device.willing : Device where
  create _ := none
  write _ _ := none
  sync _ := none
  setMode _ _ := none
  rename _ _ := none

def allow {α : Type} (refusal : Option OsError) (result : α) :
    Except OsError α :=
  match refusal with
  | none => .ok result
  | some e => .error e

/-- Opens a file for writing, and answers its place. A new file is empty, an old
one is emptied and keeps its mode. -/
def create [Device] (t : FileTree) (home : Place) (path : Path) :
    Except OsError (Place × FileTree) :=
  match t.resolve home true path with
  | .error e => .error e
  | .ok (.vacant directory name) =>
      if t.allowsAt Node.writable directory = false then
        .error .permissionDenied
      else
        allow (Device.create (name :: directory))
          (name :: directory, t.set (name :: directory) (.file [] fileMode))
  | .ok (.present place) =>
      match t.node? place with
      | some (.file _ mode) =>
          if Node.writable mode = false then .error .permissionDenied
          else allow (Device.create place) (place, t.set place (.file [] mode))
      | _ => .error .isDirectory

def fill (t : FileTree) (place : Place) (content : Utf8.Bytes) : FileTree :=
  match t.node? place with
  | some (.file _ mode) => t.set place (.file content mode)
  | _ => t

/-- Writes to an empty file. Where that is refused on the way, a part of the
content is in the file. -/
def write [Device] (t : FileTree) (place : Place) (content : Utf8.Bytes) :
    Except OsError Unit × FileTree :=
  match Device.write place content with
  | none => (.ok (), t.fill place content)
  | some (count, e) => (.error e, t.fill place (content.take count))

def withMode (mode : Nat) : Node → Node
  | .file content _ => .file content mode
  | .directory _ => .directory mode
  | .link target => .link target

def setMode [Device] (t : FileTree) (home : Place) (path : Path) (mode : Nat) :
    Except OsError FileTree :=
  match t.resolve home true path with
  | .error e => .error e
  | .ok (.vacant _ _) => .error .noEntry
  | .ok (.present place) =>
      match t.node? place with
      | none => .error .noEntry
      | some node =>
          allow (Device.setMode place mode) (t.set place (withMode mode node))

def removeFile (t : FileTree) (home : Place) (path : Path) : FileTree :=
  match t.resolve home false path with
  | .ok (.present place) =>
      if t.isDirectoryAt place ∨
        t.allowsAt Node.writable place.tail = false then t
      else t.erase place
  | _ => t

/-- Where a path puts a new name, and whether separators follow the name. -/
structure Slot where
  place : Place
  closed : Bool

/-- The slot at the end of a path; a link there is not followed. -/
def slot (t : FileTree) (home : Place) (path : Path) : Except OsError Slot :=
  if '\x00' ∈ path then .error .nulInPath
  else if path = [] then .error .noEntry
  else if pathLimit ≤ path.byteSize then .error .nameTooLong
  else
    let names := Path.names path
    let bare := (names.reverse.dropWhile (· == [])).reverse
    match bare.getLast? with
    | none => .error .busy
    | some name =>
        match t.walk true linkLimit (origin home path) bare.dropLast with
        | .error e => .error e
        | .ok (.vacant _ _) => .error .noEntry
        | .ok (.present directory) =>
            if t.isDirectoryAt directory = false then .error .notDirectory
            else if t.allowsAt Node.searchable directory = false then
              .error .permissionDenied
            else if Path.isTrivial name ∨ name = Path.parent then .error .busy
            else if nameLimit < Text.byteSize name then .error .nameTooLong
            else .ok ⟨name :: directory, bare.length < names.length⟩

/-- Moves what is at `source`, not a directory, over anything but one. -/
def rename [Device] (t : FileTree) (home : Place) (source destination : Path) :
    Except OsError FileTree :=
  match t.resolve home false source with
  | .error e => .error e
  | .ok (.vacant _ _) => .error .noEntry
  | .ok (.present place) =>
      match t.node? place, t.slot home destination with
      | _, .error e => .error e
      | none, .ok _ => .error .noEntry
      | some node, .ok slot =>
          if slot.closed then .error .notDirectory
          else if t.allowsAt Node.writable place.tail = false ∨
              t.allowsAt Node.writable slot.place.tail = false then
            .error .permissionDenied
          else if t.isDirectoryAt slot.place then .error .isDirectory
          else allow (Device.rename place slot.place)
            ((t.erase place).set slot.place node)

def temporaryName (process : Nat) (path : Path) : Text :=
  '.' :: (Path.fileName? path).getD [] ++ '.' :: Text.ofNat process ++
    ".tmp".toList

def temporaryPath (process : Nat) (path : Path) : Path :=
  Path.withFileName path (temporaryName process path)

/-- The step that was refused names the path it was about. -/
structure Refusal where
  path : Path
  error : OsError
  deriving DecidableEq, Repr

end TextOverride.FileTree
