import TextOverride.OsError
import TextOverride.Path
import TextOverride.Text.Utf8

namespace TextOverride

inductive Node
  | file (content : Utf8.Bytes) (mode : Nat)
  | directory (mode : Nat)
  | link (target : Path)
  deriving DecidableEq, Repr

namespace Node

def mode? : Node → Option Nat
  | .file _ mode => some mode
  | .directory mode => some mode
  | .link _ => none

/-! The process owns all the files that it meets. -/

def readable (mode : Nat) : Bool := mode / 0o400 % 2 = 1

def writable (mode : Nat) : Bool := mode / 0o200 % 2 = 1

def searchable (mode : Nat) : Bool := mode / 0o100 % 2 = 1

def content : Node → Except OsError Utf8.Bytes
  | .file content mode =>
      if readable mode then .ok content else .error .permissionDenied
  | .directory _ => .error .isDirectory
  | .link _ => .error .tooManyLinks

end Node

/-- Names from the root, the innermost one first. -/
abbrev Place := List Text

/-- A finite map. To change a node keeps its position in the list, so trees with
equal contents arrived at in different ways stay equal. -/
structure FileTree where
  nodes : List (Place × Node)
  deriving DecidableEq, Repr

def Place.path (place : Place) : Path :=
  Path.separator :: Path.ofNames place.reverse

namespace FileTree

def directoryMode : Nat := 0o755

def fileMode : Nat := 0o644

def lookup (place : Place) : List (Place × Node) → Option Node
  | [] => none
  | entry :: rest =>
      if place = entry.1 then some entry.2 else lookup place rest

/-- The root is a directory of every tree. -/
def node? (t : FileTree) : Place → Option Node
  | [] => some (.directory directoryMode)
  | place => lookup place t.nodes

def setNode (place : Place) (node : Node) :
    List (Place × Node) → List (Place × Node)
  | [] => [(place, node)]
  | entry :: rest =>
      if place = entry.1 then (place, node) :: rest
      else entry :: setNode place node rest

def set (t : FileTree) (place : Place) (node : Node) : FileTree :=
  ⟨setNode place node t.nodes⟩

def erase (t : FileTree) (place : Place) : FileTree :=
  ⟨t.nodes.filter fun entry => entry.1 ≠ place⟩

def isDirectoryAt (t : FileTree) (place : Place) : Bool :=
  match t.node? place with
  | some (.directory _) => true
  | _ => false

def allowsAt (t : FileTree) (allows : Nat → Bool) (place : Place) : Bool :=
  ((t.node? place).bind Node.mode?).any allows

/-- Where a path ends: at a node, or at a name that its directory lacks. -/
inductive Target
  | present (place : Place)
  | vacant (directory : Place) (name : Text)
  deriving DecidableEq, Repr

def linkLimit : Nat := 40

def nameLimit : Nat := 255

def pathLimit : Nat := 4096

/-- What a name does to a walk. A link gives it other names first. -/
inductive Stride
  | refused (error : OsError)
  | vacant
  | onward (next : Place)
  | link (next : Place) (names : List Text)

def origin (home : Place) (path : Path) : Place :=
  if Path.isAbsolute path then [] else home

/-- An empty name stands for a separator too many: it asks for a directory, but
not for the permission to look anything up there. -/
def stride (t : FileTree) (place : Place) (name : Text) : Stride :=
  if t.isDirectoryAt place = false then .refused .notDirectory
  else if name = [] then .onward place
  else if t.allowsAt Node.searchable place = false then
    .refused .permissionDenied
  else if Path.isTrivial name then .onward place
  else if name = Path.parent then .onward place.tail
  else if nameLimit < name.byteSize then .refused .nameTooLong
  else
    match t.node? (name :: place) with
    | none => .vacant
    | some (.link target) => .link (origin place target) (Path.names target)
    | some _ => .onward (name :: place)

/-- Walks along names from a place. `links` is how many more links may be
followed; a link at the very end is followed only if `follow`. -/
def walk (t : FileTree) (follow : Bool) (links : Nat) (place : Place)
    (names : List Text) : Except OsError Target :=
  match names with
  | [] => .ok (.present place)
  | name :: rest =>
      match t.stride place name with
      | .refused e => .error e
      | .vacant =>
          if rest = [] then .ok (.vacant place name) else .error .noEntry
      | .onward next => walk t follow links next rest
      | .link next others =>
          if rest = [] ∧ follow = false then .ok (.present (name :: place))
          else
            match links with
            | 0 => .error .tooManyLinks
            | links + 1 => walk t follow links next (others ++ rest)
  termination_by (links, names.length)

def resolve (t : FileTree) (home : Place) (follow : Bool) (path : Path) :
    Except OsError Target :=
  if '\x00' ∈ path then .error .nulInPath
  else if path = [] then .error .noEntry
  else if pathLimit ≤ path.byteSize then .error .nameTooLong
  else t.walk follow linkLimit (origin home path) (Path.names path)

def place? (t : FileTree) (home : Place) (path : Path) : Option Place :=
  match t.resolve home true path with
  | .ok (.present place) => some place
  | _ => none

def present (t : FileTree) (home : Place) (path : Path) : Bool :=
  (t.place? home path).isSome

def isDirectory (t : FileTree) (home : Place) (path : Path) : Bool :=
  (t.place? home path).any t.isDirectoryAt

def mode? (t : FileTree) (home : Place) (path : Path) : Option Nat := do
  (← t.node? (← t.place? home path)).mode?

def read (t : FileTree) (home : Place) (path : Path) :
    Except OsError Utf8.Bytes :=
  match t.resolve home true path with
  | .error e => .error e
  | .ok (.vacant _ _) => .error .noEntry
  | .ok (.present place) =>
      match t.node? place with
      | none => .error .noEntry
      | some node => node.content

/-! The canonical form of a path is found name by name. Each name is looked up
under the path that the names before it have come to, from the root and as a
whole, so that path must be short enough and every directory on it must let
itself be searched. The length of the path itself does not matter. -/

/-- What is at a place, for one who goes there from the root. -/
def inspect? (t : FileTree) (place : Place) : Option Node :=
  match t.resolve [] false place.path with
  | .ok (.present found) => t.node? found
  | _ => none

/-- There is a directory at the place, for one who goes there from the root. -/
def enters (t : FileTree) (place : Place) : Bool :=
  t.present [] (place.path ++ [Path.separator])

/-- Where names lead. What is not a link is asked to be a directory only where
nothing but trivial names follow, or a name of the parent comes next. -/
def real? (t : FileTree) (links : Nat) (place : Place) (names : List Text) :
    Option Place :=
  match names with
  | [] => some place
  | name :: rest =>
      if Path.isTrivial name then real? t links place rest
      else if name = Path.parent then real? t links place.tail rest
      else
        match t.inspect? (name :: place) with
        | none => none
        | some (.link target) =>
            match links with
            | 0 => none
            | links + 1 =>
                real? t links (origin place target) (Path.names target ++ rest)
        | some _ =>
            if Path.asksDirectory rest = true ∧ t.enters (name :: place) = false
            then none
            else real? t links (name :: place) rest
  termination_by (links, names.length)

/-- The path of the node that a path leads to, without links. -/
def canonical? (t : FileTree) (home : Place) (path : Path) : Option Path :=
  if '\x00' ∈ path then none
  else if path = [] then none
  else if t.isDirectoryAt (origin home path) = false then none
  else (t.real? linkLimit (origin home path) (Path.names path)).map Place.path

end FileTree

end TextOverride
