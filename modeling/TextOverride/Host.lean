import TextOverride.FileTree.Replace
import TextOverride.Log

namespace TextOverride

inductive Channel
  | out
  | err
  | buffer
  deriving DecidableEq, Repr

/-- What a run needs from the computer it runs on. -/
class Host (m : Type → Type) where
  Handle : Type
  present : Path → m Bool
  isDirectory : Path → m Bool
  read : Path → m (Except OsError Utf8.Bytes)
  canonical? : Path → m (Option Path)
  create : Path → m (Except OsError Handle)
  write : Handle → Utf8.Bytes → m (Except OsError Unit)
  sync : Handle → m (Except OsError Unit)
  mode? : Path → m (Option Nat)
  setMode : Path → Nat → m (Except OsError Unit)
  rename : Path → Path → m (Except OsError Unit)
  removeFile : Path → m Unit
  process : m Nat
  say : Channel → Text → m Unit
  now : m Text
  requestId : m Nat

/-- A computer that is a value. -/
structure Machine where
  tree : FileTree
  home : Place
  process : Nat
  clock : Text
  request : Nat
  said : List (Channel × Text)

namespace Machine

def lines (machine : Machine) (channel : Channel) : List Text :=
  (machine.said.filter (·.1 = channel)).map Prod.snd

def text (machine : Machine) (channel : Channel) : Text :=
  Text.unlines (machine.lines channel)

def say (channel : Channel) (line : Text) (machine : Machine) : Machine :=
  { machine with said := machine.said ++ [(channel, line)] }

def step {α : Type} (result : Except OsError (α × FileTree))
    (machine : Machine) :
    Except OsError α × Machine :=
  match result with
  | .error e => (.error e, machine)
  | .ok (a, tree) => (.ok a, { machine with tree })

def create [FileTree.Device] (path : Path) (machine : Machine) :
    Except OsError Place × Machine :=
  machine.step (machine.tree.create machine.home path)

def write [FileTree.Device] (place : Place) (content : Utf8.Bytes)
    (machine : Machine) :
    Except OsError Unit × Machine :=
  let (result, tree) := machine.tree.write place content
  (result, { machine with tree })

def setMode [FileTree.Device] (path : Path) (mode : Nat) (machine : Machine) :
    Except OsError Unit × Machine :=
  machine.step ((machine.tree.setMode machine.home path mode).map (((), ·)))

def rename [FileTree.Device] (source destination : Path) (machine : Machine) :
    Except OsError Unit × Machine :=
  machine.step
    ((machine.tree.rename machine.home source destination).map (((), ·)))

def removeFile (path : Path) (machine : Machine) : Machine :=
  { machine with tree := machine.tree.removeFile machine.home path }

instance [FileTree.Device] : Host (StateM Machine) where
  Handle := Place
  present path := return (← get).tree.present (← get).home path
  isDirectory path := return (← get).tree.isDirectory (← get).home path
  read path := return (← get).tree.read (← get).home path
  canonical? path := return (← get).tree.canonical? (← get).home path
  create path := modifyGet (create path)
  write place content := modifyGet (write place content)
  sync place := return FileTree.allow (FileTree.Device.sync place) ()
  mode? path := return (← get).tree.mode? (← get).home path
  setMode path mode := modifyGet (setMode path mode)
  rename source destination := modifyGet (rename source destination)
  removeFile path := modify (removeFile path)
  process := return (← get).process
  say channel line := modify (say channel line)
  now := return (← get).clock
  requestId := return (← get).request

end Machine

namespace Log

variable {m : Type → Type} [Monad m] [Host m]

def Level.channel : Level → Channel
  | .info => .out
  | .warn => .err
  | .error => .err

def Logger.write (logger : Logger) (record : Record) : m Unit :=
  match logger.sink with
  | .off => pure ()
  | .standard =>
      do Host.say record.level.channel (record.line logger.id (← Host.now))
  | .buffer => do Host.say .buffer (record.line logger.id (← Host.now))

end Log

end TextOverride
