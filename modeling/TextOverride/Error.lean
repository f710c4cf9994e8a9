import TextOverride.FileTree.Replace
import TextOverride.Json.Fault

namespace TextOverride

inductive ErrorCode
  | configNotFound
  | configReadFailed
  | parseFailed
  | manifestNotFound
  | manifestReadFailed
  | manifestInvalid
  | fileReadFailed
  | fileWriteFailed
  | validationFailed
  deriving DecidableEq, Repr

inductive ErrorArea
  | config
  | parse
  | manifest
  | file
  | validation
  deriving DecidableEq, Repr

structure ErrorReport where
  area : ErrorArea
  code : ErrorCode
  message : Text
  detail : Text
  deriving DecidableEq, Repr

namespace ErrorReport

def title : ErrorArea → Text
  | .config => "Config".toList
  | .parse => "Parse".toList
  | .manifest => "Manifest".toList
  | .file => "File".toList
  | .validation => "Validation".toList

def about (detail : Text) : ErrorArea → Text
  | .config | .manifest | .file => "path: ".toList ++ detail.quoted
  | .parse | .validation => "context: ".toList ++ detail

def display (r : ErrorReport) : Text :=
  title r.area ++ " Error: ".toList ++ r.message ++ " (".toList ++
    about r.detail r.area ++ [')']

end ErrorReport

inductive AllowListFlaw
  | empty
  | notIdentifier (name : Text)
  deriving DecidableEq, Repr

inductive TextFlaw
  | unreadable (error : OsError)
  | notUtf8

inductive Error
  | promptPathEmpty
  | baseNotDirectory (path : Path)
  | badAllowList (flaw : AllowListFlaw)
  | promptFileMissing (path : Path)
  | promptFileUnreadable (path : Path) (error : OsError)
  | promptFileNotUtf8 (fault : Utf8.Fault)
  | manifestMissing (path : Path)
  | manifestUnreadable (path : Path) (flaw : TextFlaw)
  | manifestInvalid (path : Path) (text : Text) (fault : Json.Fault)
  | fileUnreadable (path : Path) (flaw : TextFlaw)
  | fileNotWritten (refusal : FileTree.Refusal)

def AllowListFlaw.report : AllowListFlaw → ErrorReport
  | .empty =>
      ⟨.validation, .validationFailed,
        "Allow-list is empty; nothing could ever be patched".toList,
        "allow_list".toList⟩
  | .notIdentifier name =>
      ⟨.validation, .validationFailed,
        "Allow-list entry is not an identifier".toList, name⟩

namespace Error

def report : Error → ErrorReport
  | .promptPathEmpty =>
      ⟨.validation, .validationFailed, "Prompt file path is empty".toList,
        "prompts_path".toList⟩
  | .baseNotDirectory path =>
      ⟨.validation, .validationFailed,
        "Base directory does not exist or is not a directory".toList, path⟩
  | .badAllowList flaw => flaw.report
  | .promptFileMissing path =>
      ⟨.config, .configNotFound, "Prompt file not found".toList, path⟩
  | .promptFileUnreadable path error =>
      ⟨.config, .configReadFailed,
        "Could not read prompt file: ".toList ++ error.message, path⟩
  | .promptFileNotUtf8 fault =>
      ⟨.parse, .parseFailed, "Prompt file is not valid UTF-8: ".toList ++
        fault.message,
        "byte offset ".toList ++ Text.ofNat fault.validUpTo⟩
  | .manifestMissing path =>
      ⟨.manifest, .manifestNotFound, "Manifest file not found".toList, path⟩
  | .manifestUnreadable path (.unreadable error) =>
      ⟨.manifest, .manifestReadFailed,
        "Could not read manifest: ".toList ++ error.message, path⟩
  | .manifestUnreadable path .notUtf8 =>
      ⟨.manifest, .manifestReadFailed,
        "Could not read manifest: stream did not contain valid UTF-8".toList,
        path⟩
  | .manifestInvalid path text fault =>
      ⟨.manifest, .manifestInvalid,
        "Manifest is not a valid entry list: ".toList ++
        fault.message text, path⟩
  | .fileUnreadable path (.unreadable error) =>
      ⟨.file, .fileReadFailed, "Failed to read file: ".toList ++
        error.message, path⟩
  | .fileUnreadable path .notUtf8 =>
      ⟨.file, .fileReadFailed, "File is not valid UTF-8".toList, path⟩
  | .fileNotWritten refusal =>
      ⟨.file, .fileWriteFailed, "Failed to write file: ".toList ++
        refusal.error.message,
        refusal.path⟩

def code (e : Error) : ErrorCode := e.report.code

def display (e : Error) : Text := e.report.display

end Error

end TextOverride
