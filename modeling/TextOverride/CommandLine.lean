import TextOverride.Run
import TextOverride.Text.Terminal

namespace TextOverride.CommandLine

inductive ValueOption
  | manifest
  | baseDir
  | allow
  deriving DecidableEq, Repr

inductive Flag
  | dryRun
  | logJson
  deriving DecidableEq, Repr

inductive Parameter
  | prompts
  | option (option : ValueOption)
  | flag (flag : Flag)
  deriving DecidableEq, Repr

def Parameter.label : Parameter → Text
  | .prompts => "<PROMPTS>".toList
  | .option .manifest => "--manifest <MANIFEST>".toList
  | .option .baseDir => "--base-dir <BASE_DIR>".toList
  | .option .allow => "--allow <NAME>".toList
  | .flag .dryRun => "--dry-run".toList
  | .flag .logJson => "--log-json".toList

inductive UsageError
  | unexpectedArgument (argument : Text)
  | unexpectedValue (value name : Text)
  | valueWanted (parameter : Parameter)
  | repeated (parameter : Parameter)
  | promptsMissing
  deriving DecidableEq, Repr

namespace UsageError

/-- Arguments are quoted without what only a terminal can carry out. -/
def describe : UsageError → Text
  | .unexpectedArgument argument =>
      "unexpected argument '".toList ++ Terminal.visible argument ++
        "' found".toList
  | .unexpectedValue value name =>
      "unexpected value '".toList ++ Terminal.visible value ++
        "' for '--".toList ++ name ++
        "' found; no more were expected".toList
  | .valueWanted parameter =>
      "a value is required for '".toList ++ parameter.label ++
        "' but none was supplied".toList
  | .repeated parameter =>
      "the argument '".toList ++ parameter.label ++
        "' cannot be used multiple times".toList
  | .promptsMissing =>
      "the following required arguments were not provided:".toList

def message (e : UsageError) : Text := "error: ".toList ++ e.describe

end UsageError

structure Settled where
  prompts : Option Path
  manifest : Option Path
  baseDir : Option Path
  allow : List Text
  dryRun : Bool
  logJson : Bool
  deriving DecidableEq, Repr

def Settled.nothing : Settled := ⟨none, none, none, [], false, false⟩

inductive Pending
  | nothing
  | prompts (path : Path)
  | option (option : ValueOption) (value : Option Text)
  deriving DecidableEq, Repr

inductive Stop
  | help
  | version
  | usage (error : UsageError)
  deriving DecidableEq, Repr

namespace Settled

/-- Paths are given once and are not empty. -/
def path (parameter : Parameter) (known : Option Path) (value : Path) :
    Except UsageError Path :=
  if known.isSome then .error (.repeated parameter)
  else if value = [] then .error (.valueWanted parameter)
  else .ok value

def setOption (s : Settled) (option : ValueOption) (value : Text) :
    Except UsageError Settled :=
  match option with
  | .manifest =>
      do return { s with
        manifest := ← path (.option .manifest) s.manifest value }
  | .baseDir =>
      do return { s with
        baseDir := ← path (.option .baseDir) s.baseDir value }
  | .allow => .ok { s with allow := s.allow ++ [value] }

def setFlag (s : Settled) (flag : Flag) : Except UsageError Settled :=
  match flag with
  | .dryRun =>
      if s.dryRun then .error (.repeated (.flag flag))
        else .ok { s with dryRun := true }
  | .logJson =>
      if s.logJson then .error (.repeated (.flag flag))
        else .ok { s with logJson := true }

def settle (s : Settled) : Pending → Except UsageError Settled
  | .nothing => .ok s
  | .prompts value => do return { s with prompts := ← path .prompts none value }
  | .option option none => .error (.valueWanted (.option option))
  | .option option (some value) => s.setOption option value

end Settled

inductive LongName
  | help
  | version
  | option (option : ValueOption)
  | flag (flag : Flag)

def longName? (name : Text) : Option LongName :=
  if name = "help".toList then some .help
  else if name = "version".toList then some .version
  else if name = "manifest".toList then some (.option .manifest)
  else if name = "base-dir".toList then some (.option .baseDir)
  else if name = "allow".toList then some (.option .allow)
  else if name = "dry-run".toList then some (.flag .dryRun)
  else if name = "log-json".toList then some (.flag .logJson)
  else none

def splitValue (t : Text) : Text × Option Text :=
  match t.dropWhile (· != '=') with
  | [] => (t, none)
  | _ :: value => (t.takeWhile (· != '='), some value)

structure Reading where
  settled : Settled
  /-- Settled when the next argument is met, if that one is known. -/
  pending : Pending
  /-- After `--` every argument is positional. -/
  positionalOnly : Bool

def Reading.start : Reading := ⟨.nothing, .nothing, false⟩

namespace Reading

def usage {α : Type} : Except UsageError α → Except Stop α
  | .ok a => .ok a
  | .error e => .error (.usage e)

def settle (r : Reading) : Except Stop Settled :=
  usage (r.settled.settle r.pending)

def stop {α : Type} (r : Reading) (stop : Stop) : Except Stop α := do
  let _ ← r.settle
  throw stop

def long (r : Reading) (argument : Text) : Except Stop Reading :=
  let (name, value?) := splitValue argument
  match longName? name, value? with
  | none, _ => .error (.usage (.unexpectedArgument ('-' :: '-' :: name)))
  | some (.option option), none => do
      return { r with settled := ← r.settle, pending := .option option none }
  | some (.option option), some value => do
      let settled ← r.settle
      return { r with
        settled := ← usage (settled.setOption option value), pending :=
          .nothing }
  | some _, some value => .error (.usage (.unexpectedValue value name))
  | some .help, none => r.stop .help
  | some .version, none => r.stop .version
  | some (.flag flag), none => do
      let settled ← r.settle
      return { r with
        settled := ← usage (settled.setFlag flag), pending := .nothing }

def short {α : Type} (r : Reading) (letter : Char) : Except Stop α :=
  if letter = 'h' then r.stop .help
  else if letter = 'V' then r.stop .version
  else .error (.usage (.unexpectedArgument ['-', letter]))

def positional (r : Reading) (argument : Text) : Except Stop Reading := do
  match r.settled.prompts, r.pending with
  | some _, _ | _, .prompts _ => throw (.usage (.unexpectedArgument argument))
  | none, _ =>
      return { r with settled := ← r.settle, pending := .prompts argument }

def argument (r : Reading) (argument : Text) : Except Stop Reading :=
  if r.positionalOnly then r.positional argument
  else
    match argument with
    | ['-', '-'] => .ok { r with positionalOnly := true }
    | '-' :: '-' :: rest => r.long rest
    | '-' :: letter :: _ => r.short letter
    | _ =>
        match r.pending with
        | .option option none =>
            .ok { r with pending := .option option (some argument) }
        | _ => r.positional argument

end Reading

def settled (arguments : List Text) : Except Stop Settled := do
  (← arguments.foldlM Reading.argument .start).settle

inductive Command
  | help
  | version
  | run (config : Config) (logJson : Bool)

def Settled.config (s : Settled) (prompts : Path) : Config where
  prompts := prompts
  manifest := s.manifest
  base := s.baseDir.getD ['.']
  allow :=
    if s.allow = [] then AllowList.standard else AllowList.ofNames s.allow
  dryRun := s.dryRun

def parse (arguments : List Text) : Except UsageError Command :=
  match settled arguments with
  | .error .help => .ok .help
  | .error .version => .ok .version
  | .error (.usage e) => .error e
  | .ok s =>
      match s.prompts with
      | none => .error .promptsMissing
      | some prompts => .ok (.run (s.config prompts) s.logJson)

/-! Carrying a command out. -/

def versionLine : Text := "promptpatch 0.1.0".toList

def helpLines : List Text :=
  ["Inject prompt overrides from a block-format file into generated sources",
    "",
    "Usage: promptpatch [OPTIONS] <PROMPTS>",
    "",
    "Arguments:",
    "  <PROMPTS>  Prompt file in block format (`key:` lines followed by two-space-indented text)",
    "",
    "Options:",
    "      --manifest <MANIFEST>  Manifest JSON; defaults to `<base-dir>/patch_config.json`",
    "      --base-dir <BASE_DIR>  Directory that manifest `targetFile` paths are relative to [default: .]",
    "      --allow <NAME>         Identifier that may be patched (repeatable). Defaults to the built-in prompt constants",
    "      --dry-run              Locate and build every patch but write nothing",
    "      --log-json             Emit structured JSONL logs alongside the report",
    "  -h, --help                 Print help",
    "  -V, --version              Print version"].map String.toList

def openingLines (config : Config) : List Text :=
  ["Loading prompts from: ".toList ++ config.prompts,
    "Loading patch config from: ".toList ++ config.manifestPath]

def closingLines (dryRun : Bool) (summary : Summary) : List Text :=
  summary.map Report.display ++
    [[], "Patching finished: ".toList ++ summary.counts ++
      (if dryRun then " (dry run)".toList else []) ++ ['.']] ++
    (if 0 < summary.applied ∧ dryRun = false then
      ["Rebuild the patched sources to pick up the changes.".toList]
    else [])

def indentation : Text := List.replicate 4 ' '

def indent (t : Text) : Text :=
  indentation ++ t.flatMap fun c =>
    if c = '\n' then '\n' :: indentation else [c]

def abortLines (e : Error) : List Text :=
  ["Error: patch run aborted".toList, [], "Caused by:".toList, indent e.display]

variable {m : Type → Type} [Monad m] [Host m]

def say (channel : Channel) (lines : List Text) : m Unit :=
  lines.forM (Host.say channel)

def runConfig [LineScan.Patterns] (config : Config) (logJson : Bool) :
    m Nat := do
  let id ← Host.requestId
  say .out (openingLines config)
  let logger : Log.Logger :=
    if logJson then ⟨max 1 id, .standard, by omega⟩ else .off
  match ← (config.run logger).run with
  | .error misuse => do say .err [misuse.message]; return 101
  | .ok (.error e) => do say .err (abortLines e); return 1
  | .ok (.ok summary) =>
      do say .out (closingLines config.dryRun summary); return 0

def execute [LineScan.Patterns] (arguments : List Text) : m Nat := do
  match parse arguments with
  | .error e => say .err [e.message]; return 2
  | .ok .help => say .out helpLines; return 0
  | .ok .version => say .out [versionLine]; return 0
  | .ok (.run config logJson) => runConfig config logJson

end TextOverride.CommandLine
