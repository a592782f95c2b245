import CodeAtlas.Files.Fault
import CodeAtlas.Glob.Pattern

/-!
# Failures

What stops a run. Each failure is a cause; `message` says it in words.
-/
namespace CodeAtlas

/-- A file name that is set. -/
inductive FileNameField where
  | overview
  | module
  deriving DecidableEq, Repr

def FileNameField.key : FileNameField → String
  | overview => "overview_file"
  | module => "module_file"

/-- Why settings cannot be used. -/
inductive SettingsFault where
  | noRoots
  | blankPattern
  | noLanguages
  | noKinds
  | blankName (field : FileNameField)
  | nameIsPath (field : FileNameField) (name : String)
  | sameNames
  deriving DecidableEq, Repr

def SettingsFault.message : SettingsFault → String
  | noRoots => "at least one root is required"
  | blankPattern => "pattern cannot be empty"
  | noLanguages => "languages cannot be an empty list"
  | noKinds => "diagram kinds cannot be an empty list"
  | blankName field => field.key ++ " cannot be empty"
  | nameIsPath field name => field.key ++ " must be a file name, not a path: " ++ name
  | sameNames => "overview_file and module_file must differ"

inductive Failure where
  | file (fault : FileFault)
  /-- A settings file is not well formed. -/
  | unreadableSettings
  | settings (fault : SettingsFault)
  | pathNotFound (path : Path)
  | outputDirectory (path : Path) (fault : FileFault)
  | document (path : Path) (fault : FileFault)
  | pattern (e : Glob.PatternError)
  deriving DecidableEq, Repr

def Failure.message : Failure → String
  | file fault => "IO error: " ++ fault.message
  | unreadableSettings => "Failed to parse config file"
  | settings fault => "Config validation error: " ++ fault.message
  | pathNotFound p => "Path not found: " ++ p.text
  | outputDirectory p fault =>
    "Cannot create output directory " ++ p.text ++ ": " ++ fault.message
  | document p fault => "Cannot write artifact " ++ p.text ++ ": " ++ fault.message
  | pattern e => "Glob pattern error: " ++ e.message

end CodeAtlas
