import CodeAtlas.Diagram.Kind
import CodeAtlas.Json.Value
import CodeAtlas.Source

/-!
# Run summaries

What a finished run has done, in words and as data.
-/
namespace CodeAtlas

structure RunSummary where
  filesDiscovered : Nat
  filesAnalyzed : Nat
  classesFound : Nat
  modules : Nat
  warnings : List Warning
  /-- Where the documents are, the overview first and then the pages in the order of the modules. -/
  documents : List Path
  kinds : List DiagramKind
  outputDirectory : Path
  deriving DecidableEq, Repr

def Warning.toJson (w : Warning) : JsonValue :=
  .record [
    ("path", .text w.path.text),
    ("line", match w.line with
      | some n => .number n
      | none => .null),
    ("kind", .text w.kind.key),
    ("message", .text w.message)]

namespace RunSummary

def toJson (s : RunSummary) : JsonValue :=
  .record [
    ("files_discovered", .number s.filesDiscovered),
    ("files_analyzed", .number s.filesAnalyzed),
    ("classes_found", .number s.classesFound),
    ("modules", .number s.modules),
    ("warnings", .list (s.warnings.map Warning.toJson)),
    ("artifacts_written", .texts (s.documents.map (·.text))),
    ("diagram_kinds", .texts (s.kinds.map DiagramKind.name)),
    ("output_dir", .text s.outputDirectory.text)]

/-- How many warnings are listed unless all are asked for. -/
def previewLength : Nat := 5

/-- The list of warnings, cut short unless `all` are asked for. -/
def warningText (s : RunSummary) (all : Bool) : String :=
  let shown := if all then s.warnings else s.warnings.take previewLength
  let left := s.warnings.length - shown.length
  if s.warnings.isEmpty then ""
  else
    "\nWarnings (" ++ toString s.warnings.length ++ "):\n" ++
      String.join (shown.map fun w => "  " ++ w.display ++ "\n") ++
      if left = 0 then ""
      else "  ... and " ++ toString left ++ " more (use --show-warnings to list all)\n"

def text (s : RunSummary) (allWarnings : Bool) : String :=
  "Discovered " ++ toString s.filesDiscovered ++ " files, analyzed " ++
    toString s.filesAnalyzed ++ "\nFound " ++ toString s.classesFound ++ " classes in " ++
    toString s.modules ++ " modules\nWrote " ++ toString s.documents.length ++
    " artifacts to " ++ s.outputDirectory.text ++ "\n" ++ s.warningText allWarnings

end RunSummary
end CodeAtlas
