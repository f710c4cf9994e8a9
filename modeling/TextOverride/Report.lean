import TextOverride.Log
import TextOverride.Manifest
import TextOverride.Path
import TextOverride.Statement

namespace TextOverride

inductive Skip
  | fileNotFound
  | noValue
  | declarationNotFound
  | statementUnterminated
  | notAllowed
  deriving DecidableEq, Repr

inductive Outcome
  | applied
  | skipped (why : Skip)
  | failed (reason : Text)
  deriving DecidableEq, Repr

def NotFound.skip : NotFound → Skip
  | .declaration => .declarationNotFound
  | .unterminated => .statementUnterminated

def Skip.label : Skip → Text
  | .fileNotFound => "skipped-not-found-file".toList
  | .noValue => "skipped-no-mapping-value".toList
  | .declarationNotFound => "skipped-declaration-not-found".toList
  | .statementUnterminated => "skipped-statement-unterminated".toList
  | .notAllowed => "skipped-not-whitelisted".toList

namespace Outcome

def label : Outcome → Text
  | .applied => "applied".toList
  | .skipped why => why.label
  | .failed _ => "failed".toList

def isApplied : Outcome → Bool
  | .applied => true
  | _ => false

def isFailed : Outcome → Bool
  | .failed _ => true
  | _ => false

def level : Outcome → Log.Level
  | .applied => .info
  | .skipped _ => .warn
  | .failed _ => .error

end Outcome

structure Report where
  entry : ManifestEntry
  outcome : Outcome
  /-- The target below the base directory, if the entry got that far. -/
  target : Option Path
  insertedAt : Option Nat
  written : Bool
  deriving DecidableEq, Repr

namespace Report

def untouched (entry : ManifestEntry) (outcome : Outcome)
    (target : Option Path) : Report :=
  ⟨entry, outcome, target, none, false⟩

def display (r : Report) : Text :=
  let name := r.entry.variableName
  let file := r.entry.targetFile
  match r.outcome with
  | .applied =>
      if r.written then "-> Patched '".toList ++ name ++ "' in ".toList ++ file
      else "-> Would patch '".toList ++ name ++ "' in ".toList ++ file ++
        " (dry run)".toList
  | .skipped .fileNotFound =>
      "   ERROR: Target file not found for '".toList ++ name ++
        "': ".toList ++ file
  | .skipped .noValue =>
      "-> Skipping '".toList ++ name ++ "': no value for prompt key '".toList ++
        r.entry.promptKey ++ ['\'']
  | .skipped .declarationNotFound =>
      "   WARN: Could not find declaration for '".toList ++ name ++
        "' in ".toList ++ file ++
        ". Skipping.".toList
  | .skipped .statementUnterminated =>
      "   WARN: Could not find end of statement for '".toList ++ name ++
        "' in ".toList ++
        file ++ ". Skipping.".toList
  | .skipped .notAllowed =>
      "-> Skipping '".toList ++ name ++
        "' as it is not a top-level variable that can be patched this way.".toList
  | .failed reason =>
      "   ERROR: Failed to patch '".toList ++ name ++ "' in ".toList ++ file ++
        ": ".toList ++
        reason

def summaryLine (r : Report) : Text :=
  r.entry.promptKey ++ " -> ".toList ++ r.entry.variableName ++ " (".toList ++
    r.entry.targetFile ++ [')']

def logMessage (r : Report) : Text :=
  match r.outcome with
  | .failed reason => r.summaryLine ++ ": ".toList ++ reason
  | _ => r.summaryLine

def record (r : Report) : Log.Record :=
  ⟨r.outcome.level, "orchestrate".toList, r.outcome.label, r.logMessage⟩

end Report

abbrev Summary := List Report

namespace Summary

def applied (s : Summary) : Nat := s.countP (·.outcome.isApplied)

def failed (s : Summary) : Nat := s.countP (·.outcome.isFailed)

def skipped (s : Summary) : Nat := s.length - s.applied - s.failed

def counts (s : Summary) : Text :=
  Text.ofNat s.applied ++ " applied, ".toList ++ Text.ofNat s.skipped ++
    " skipped, ".toList ++
    Text.ofNat s.failed ++ " failed".toList

end Summary

end TextOverride
