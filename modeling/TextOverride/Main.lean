import Std.Time
import TextOverride.CommandLine

namespace TextOverride

namespace OsError

/-- Error numbers come negated from some calls. -/
def ofNumber (number : UInt32) (details : String) : OsError :=
  let n :=
    if number < 0x80000000 then number.toNat else Nat.pow 2 32 - number.toNat
  match n with
  | 2 => .noEntry
  | 13 => .permissionDenied
  | 16 => .busy
  | 20 => .notDirectory
  | 21 => .isDirectory
  | 36 => .nameTooLong
  | 40 => .tooManyLinks
  | n => .other (s!"{details} (os error {n})").toList

def ofIO : IO.Error → OsError
  | .alreadyExists _ n details => ofNumber n details
  | .otherError n details => ofNumber n details
  | .resourceBusy n details => ofNumber n details
  | .resourceVanished n details => ofNumber n details
  | .unsupportedOperation n details => ofNumber n details
  | .hardwareFault n details => ofNumber n details
  | .unsatisfiedConstraints n details => ofNumber n details
  | .illegalOperation n details => ofNumber n details
  | .protocolError n details => ofNumber n details
  | .timeExpired n details => ofNumber n details
  | .interrupted _ n details => ofNumber n details
  | .noFileOrDirectory _ n details => ofNumber n details
  | .invalidArgument _ n details => ofNumber n details
  | .permissionDenied _ n details => ofNumber n details
  | .resourceExhausted _ n details => ofNumber n details
  | .inappropriateType _ n details => ofNumber n details
  | .noSuchThing _ n details => ofNumber n details
  | .unexpectedEof => .other "unexpected end of file".toList
  | .userError message => .other message.toList

end OsError

namespace Disk

def attempt {α : Type} (work : IO α) : IO (Except OsError α) := do
  try return .ok (← work)
  catch e => return .error (OsError.ofIO e)

def attemptAt {α : Type} (path : Path) (work : String → IO α) :
    IO (Except OsError α) :=
  if '\x00' ∈ path then return .error .nulInPath
  else attempt (work (String.ofList path))

def canonical? (path : Path) : IO (Option Path) := do
  match ← attemptAt path fun name => IO.FS.realPath name with
  | .ok real => return some real.toString.toList
  | .error _ => return none

/-- Only a path that can be looked up as a whole leads anywhere. -/
def present (path : Path) : IO Bool :=
  return path.byteSize < FileTree.pathLimit && (← canonical? path).isSome

def isDirectory (path : Path) : IO Bool := do
  if FileTree.pathLimit ≤ path.byteSize then return false
  match ← attemptAt path fun name => do (← IO.FS.realPath name).isDir with
  | .ok answer => return answer
  | .error _ => return false

def read (path : Path) : IO (Except OsError Utf8.Bytes) :=
  attemptAt path fun name => do return (← IO.FS.readBinFile name).toList

/-- Tells the temporary files of this process from those of others. -/
def processNumber : IO Nat := do
  try
    let status ← IO.FS.readFile "/proc/self/stat"
    return (String.ofList (status.toList.takeWhile Char.isDigit)).toNat?.getD 0
  catch _ => IO.monoNanosNow

def create (path : Path) : IO (Except OsError IO.FS.Handle) :=
  attemptAt path fun name => IO.FS.Handle.mk name .write

def write (file : IO.FS.Handle) (content : Utf8.Bytes) :
    IO (Except OsError Unit) :=
  attempt (file.write ⟨content.toArray⟩)

def sync (file : IO.FS.Handle) : IO (Except OsError Unit) := attempt file.flush

def right (bits : Nat) : IO.AccessRight where
  read := bits / 4 % 2 = 1
  write := bits / 2 % 2 = 1
  execution := bits % 2 = 1

def setMode (path : Path) (mode : Nat) : IO (Except OsError Unit) :=
  attemptAt path fun name => IO.setAccessRights name
    { user := right (mode / 64)
      group := right (mode / 8)
      other := right mode }

def rename (source destination : Path) : IO (Except OsError Unit) :=
  attemptAt destination fun name => IO.FS.rename (String.ofList source) name

def removeFile (path : Path) : IO Unit := do
  let _ ← attemptAt path fun name => IO.FS.removeFile name

def say : Channel → Text → IO Unit
  | .out, line => IO.println (String.ofList line)
  | .err, line => IO.eprintln (String.ofList line)
  | .buffer, _ => pure ()

open Std.Time in
def now : IO Text := do
  let time := DateTime.ofTimestamp (← Timestamp.now) .UTC
  return (time.format "uuuu-MM-dd'T'HH:mm:ss.SSSSSSSSSxxx").toList

/-- The time in milliseconds, mixed with the number of the process. -/
def requestId : IO Nat := do
  let time ← Std.Time.Timestamp.now
  return time.toMillisecondsSinceUnixEpoch.val.toNat ^^^ (← processNumber)

instance : Host IO where
  present := present
  isDirectory := isDirectory
  Handle := IO.FS.Handle
  read := read
  canonical? := canonical?
  create := create
  write := write
  sync := sync
  -- `IO` does not show permission bits, so a replaced file gets those of a new
  -- one.
  mode? _ := return none
  setMode := setMode
  rename := rename
  removeFile := removeFile
  process := processNumber
  say := say
  now := now
  requestId := requestId

end Disk

end TextOverride

def main (arguments : List String) : IO UInt32 := do
  let code : Nat ← TextOverride.CommandLine.execute
    (arguments.map String.toList)
  return code.toUInt32
