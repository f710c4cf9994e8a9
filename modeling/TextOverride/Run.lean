import TextOverride.AllowList
import TextOverride.Host
import TextOverride.Injection
import TextOverride.Prompts
import TextOverride.Report

namespace TextOverride

variable {m : Type → Type} [Monad m] [Host m]

def readText (path : Path) : m (Except TextFlaw Text) := do
  match ← Host.read path with
  | .error e => return .error (.unreadable e)
  | .ok bytes =>
      match Utf8.decode bytes with
      | .error _ => return .error .notUtf8
      | .ok text => return .ok text

def blame {α : Type} (path : Path) (step : m (Except OsError α)) :
    ExceptT FileTree.Refusal m α :=
  ExceptT.mk do return (← step).mapError (⟨path, ·⟩)

/-- Brings the content to `path` by way of a file at `temporary`, which takes
over the permission bits of what it replaces. -/
def install (temporary path : Path) (content : Utf8.Bytes) :
    ExceptT FileTree.Refusal m Unit := do
  let file ← blame temporary (Host.create temporary)
  blame temporary (Host.write file content)
  blame temporary (Host.sync file)
  match ← (Host.mode? path : m (Option Nat)) with
  | none => pure ()
  | some mode => blame temporary (Host.setMode temporary mode)
  blame path (Host.rename temporary path)

/-- Replaces what `path` leads to as a whole, or `path` itself where it has no
canonical form. -/
def replace (path : Path) (content : Utf8.Bytes) :
    m (Except FileTree.Refusal Unit) := do
  let path := (← Host.canonical? path).getD path
  let temporary := FileTree.temporaryPath (← Host.process) path
  match ← (install temporary path content).run with
  | .ok () => return .ok ()
  | .error refusal =>
      Host.removeFile temporary
      return .error refusal

def writeText (path : Path) (text : Text) : m (Except Error Unit) := do
  return (← replace path (Utf8.encode text)).mapError .fileNotWritten

def loadPrompts (path : Path) : m (Except Error Prompts) := do
  if !(← Host.present path) then return .error (.promptFileMissing path)
  match ← Host.read path with
  | .error e => return .error (.promptFileUnreadable path e)
  | .ok bytes => return (Prompts.parseBytes bytes).mapError .promptFileNotUtf8

def loadManifest (path : Path) : m (Except Error Manifest) := do
  if !(← Host.present path) then return .error (.manifestMissing path)
  match ← readText path with
  | .error flaw => return .error (.manifestUnreadable path flaw)
  | .ok text =>
      return (Manifest.read text).mapError (.manifestInvalid path text)

structure Settings where
  prompts : Prompts
  allow : AllowList
  base : Path
  dryRun : Bool
  locator : Locator

namespace Settings

def screen (s : Settings) (entry : ManifestEntry) :
    Except Report (Text × Path) :=
  match s.prompts.get? entry.promptKey with
  | none | some [] => .error (.untouched entry (.skipped .noValue) none)
  | some value =>
      if s.allow.contains entry.variableName = false then
        .error (.untouched entry (.skipped .notAllowed) none)
      else
        match Path.confine? s.base entry.targetFile with
        | none =>
            .error (.untouched entry
              (.failed "target path escapes the base directory".toList) none)
        | some target => .ok (value, target)

structure Patch where
  last : Nat
  text : Text

def patch (s : Settings) (content name value : Text) :
    Except Misuse (Except NotFound Patch) := do
  let lines := content.pieces
  match s.locator.locate lines name with
  | .error reason => return .error reason
  | .ok statement =>
      let patched ← Injection.insert? lines statement.last name value
      return .ok ⟨statement.last, patched.flatten⟩

def applyEntry (s : Settings) (entry : ManifestEntry) :
    ExceptT Misuse m Report := do
  match s.screen entry with
  | .error report => return report
  | .ok (value, target) =>
      let stop (outcome : Outcome) : Report :=
        .untouched entry outcome (some target)
      if !(← (Host.present target : m Bool)) then
        return stop (.skipped .fileNotFound)
      match ← (readText target : m _) with
      | .error flaw =>
          return stop (.failed (Error.fileUnreadable target flaw).display)
      | .ok content =>
          match ← s.patch content entry.variableName value with
          | .error reason => return stop (.skipped reason.skip)
          | .ok patch =>
              let done : Report :=
                ⟨entry, .applied, some target, some (patch.last + 1), !s.dryRun⟩
              if s.dryRun then return done
              match ← (writeText target patch.text : m _) with
              | .error e => return stop (.failed e.display)
              | .ok () => return done

def applyAll (s : Settings) (logger : Log.Logger) :
    Manifest → ExceptT Misuse m Summary
  | [] => return []
  | entry :: rest => do
      let report ← s.applyEntry entry
      (logger.write report.record : m Unit)
      return report :: (← applyAll s logger rest)

end Settings

structure Config where
  prompts : Path
  manifest : Option Path
  base : Path
  allow : AllowList
  dryRun : Bool

namespace Config

def manifestName : Path := "patch_config.json".toList

def manifestPath (config : Config) : Path :=
  config.manifest.getD (Path.join config.base manifestName)

def check (config : Config) : m (Except Error Unit) := do
  if config.prompts = [] then return .error .promptPathEmpty
  if !(← Host.isDirectory config.base) then
    return .error (.baseNotDirectory config.base)
  match config.allow.flaw? with
  | some flaw => return .error (.badAllowList flaw)
  | none => return .ok ()

def settings [LineScan.Patterns] (config : Config) (prompts : Prompts) :
    Settings :=
  ⟨prompts, config.allow, config.base, config.dryRun, LineScan.locator⟩

def parsedRecord (config : Config) (prompts : Prompts) : Log.Record :=
  ⟨.info, "blocks".toList, "parsed".toList,
    Text.ofNat prompts.size ++ " keys from ".toList ++ config.prompts⟩

def loadedRecord (config : Config) (manifest : Manifest) : Log.Record :=
  ⟨.info, "manifest".toList, "loaded".toList,
    Text.ofNat manifest.length ++ " entries from ".toList ++
    config.manifestPath⟩

def finishedRecord (summary : Summary) : Log.Record :=
  ⟨.info, "orchestrate".toList, "finished".toList, summary.counts⟩

def run [LineScan.Patterns] (config : Config) (logger : Log.Logger) :
    ExceptT Misuse m (Except Error Summary) := do
  match ← (config.check : m _) with
  | .error e => return .error e
  | .ok () =>
  match ← (loadPrompts config.prompts : m _) with
  | .error e => return .error e
  | .ok prompts =>
  (logger.write (config.parsedRecord prompts) : m Unit)
  match ← (loadManifest config.manifestPath : m _) with
  | .error e => return .error e
  | .ok manifest =>
  (logger.write (config.loadedRecord manifest) : m Unit)
  let summary ← (config.settings prompts).applyAll logger manifest
  (logger.write (finishedRecord summary) : m Unit)
  return .ok summary

end Config

end TextOverride
