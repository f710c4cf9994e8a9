import TextOverride.FileTree.Edit
import TextOverride.Main
import TextOverride.Proofs.TextMap
import TextOverride.Proofs.Text.Order
import TextOverride.Proofs.TextMap.Canonical
import TextOverride.Proofs.Text.Lines
import TextOverride.Proofs.Prompts.Section
import TextOverride.Proofs.Prompts.Meaning
import TextOverride.Proofs.Prompts.Rendering
import TextOverride.Proofs.Prompts.Union
import TextOverride.Proofs.Prompts.Layout
import TextOverride.Proofs.Text.ValidPrefix
import TextOverride.Proofs.Prompts.Bytes
import TextOverride.Proofs.Injection.Insertion
import TextOverride.Proofs.Injection.Literal
import TextOverride.Proofs.FileTree.Shape
import TextOverride.Proofs.FileTree.Walk
import TextOverride.Proofs.Text.Utf8
import TextOverride.Proofs.FileTree.Ending
import TextOverride.Proofs.FileTree.Canonical
import TextOverride.Proofs.FileTree.Vacancy
import TextOverride.Proofs.FileTree.Replacement
import TextOverride.Proofs.Run.Machine
import TextOverride.Proofs.Run.Steps
import TextOverride.Proofs.Statement
import TextOverride.Proofs.Run.Insertions
import TextOverride.Proofs.Statement.Declaration
import TextOverride.Proofs.Statement.Scan
import TextOverride.Proofs.Statement.First
import TextOverride.Proofs.Text.Endings
import TextOverride.Proofs.Statement.Endings
import TextOverride.Proofs.Injection.Placement
import TextOverride.Proofs.Injection.Endings
import TextOverride.Proofs.Run.Patches
import TextOverride.Proofs.Run.Verdict
import TextOverride.Proofs.Run.Course
import TextOverride.Proofs.Run.Entry
import TextOverride.Proofs.Run.Order
import TextOverride.Proofs.Run.Isolation
import TextOverride.Proofs.Run.Rehearsal
import TextOverride.Proofs.FileTree.Confinement
import TextOverride.Proofs.Run.Confinement
import TextOverride.Proofs.Run.Loading
import TextOverride.Proofs.Run.Safety
import TextOverride.Proofs.Run.Outcome
import TextOverride.Proofs.Json.Strings
import TextOverride.Proofs.Json.Numerals
import TextOverride.Proofs.Json.Documents
import TextOverride.Proofs.Json.Skipping
import TextOverride.Proofs.Json.Decoding
import TextOverride.Proofs.Manifest.Reading
import TextOverride.Proofs.Manifest.Acceptance
import TextOverride.Proofs.Log.Framing
import TextOverride.Proofs.Run.Logging
import TextOverride.Proofs.FileTree.Atomicity
import TextOverride.Proofs.Run.Writing
import TextOverride.Proofs.AllowList
import TextOverride.Proofs.Run.Names
import TextOverride.Proofs.CommandLine.Choices
import TextOverride.Proofs.CommandLine.Reading
