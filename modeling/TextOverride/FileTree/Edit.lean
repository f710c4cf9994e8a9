import TextOverride.FileTree

namespace TextOverride

def Node.alike : Node → Node → Bool
  | .file content _, .file content' _ => content == content'
  | .directory _, .directory _ => true
  | .link target, .link target' => target == target'
  | _, _ => false

namespace FileTree

def makeDirectory (t : FileTree) (home : Place) (path : Path) : FileTree :=
  match t.resolve home true path with
  | .ok (.vacant directory name) =>
      t.set (name :: directory) (.directory directoryMode)
  | _ => t

def makeDirectories (t : FileTree) (home : Place) (names : List Text)
    (count : Nat) : FileTree :=
  (List.range count).foldl
    (fun t n => t.makeDirectory home (Path.ofNames (names.take (n + 1)))) t

def makeParents (t : FileTree) (home : Place) (path : Path) : FileTree :=
  let names := Path.names path
  t.makeDirectories home names (names.length - 1)

def putDirectory (t : FileTree) (home : Place) (path : Path) : FileTree :=
  let names := Path.names path
  t.makeDirectories home names names.length

/-- Without a mode an existing file keeps its own. -/
def putFile (t : FileTree) (home : Place) (path : Path) (content : Utf8.Bytes)
    (mode : Option Nat) : FileTree :=
  let t := t.makeParents home path
  match t.resolve home true path with
  | .error _ => t
  | .ok (.vacant directory name) =>
      t.set (name :: directory) (.file content (mode.getD fileMode))
  | .ok (.present place) =>
      match t.node? place with
      | some (.file _ old) => t.set place (.file content (mode.getD old))
      | _ => t

def putLink (t : FileTree) (home : Place) (path target : Path) : FileTree :=
  let t := t.makeParents home path
  match t.resolve home false path with
  | .ok (.vacant directory name) => t.set (name :: directory) (.link target)
  | _ => t

def removeAll (t : FileTree) (home : Place) (path : Path) : FileTree :=
  match t.resolve home false path with
  | .ok (.present place) => ⟨t.nodes.filter fun entry => ¬ place <:+ entry.1⟩
  | _ => t

def below (t : FileTree) (place : Place) : List (Path × Node) :=
  t.nodes.filterMap fun entry =>
    if place <:+ entry.1 ∧ place ≠ entry.1 then
      some (Path.ofNames (entry.1.take (entry.1.length - place.length)).reverse,
        entry.2)
    else none

def allReadable (t : FileTree) (place : Place) : Bool :=
  (t.below place).all fun entry =>
    match entry.2 with
    | .file _ mode => Node.readable mode
    | _ => true

def changes (earlier later : FileTree) (place : Place) :
    List (Path × Option Node) :=
  let before := earlier.below place
  let after := later.below place
  let gone := before.filterMap fun entry =>
    if after.any (·.1 == entry.1) then none else some (entry.1, none)
  let changed := after.filterMap fun entry =>
    if before.any fun old => old.1 == entry.1 && old.2.alike entry.2 then none
    else some (entry.1, some entry.2)
  gone ++ changed

end FileTree

end TextOverride
