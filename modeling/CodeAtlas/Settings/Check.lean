import CodeAtlas.Failure
import CodeAtlas.Settings.Basic
import CodeAtlas.Text.Blank

/-!
# Checking settings

`Settings.check` finds the first fault of settings: in the roots, the globs, the lists, and then
the names of the documents.
-/
namespace CodeAtlas

/-- The tokens of a glob. -/
def readGlob (text : String) : Except Failure (List Glob.Token) :=
  match Glob.parse text with
  | .ok tokens => .ok tokens
  | .error e => .error (.pattern e)

def isBlankText (s : String) : Bool := Text.allBlank s.toList

/-- Whether a character parts the names in a path, on any system. -/
def isPathSeparator (c : Char) : Bool := c = '/' || c = '\\'

def checkFileName (field : FileNameField) (name : String) : Except Failure Unit :=
  if isBlankText name then .error (.settings (.blankName field))
  else if name.toList.any isPathSeparator then .error (.settings (.nameIsPath field name))
  else .ok ()

namespace Settings

def checkDiscovery (s : DiscoverySettings) : Except Failure Unit := do
  if s.roots.isEmpty then throw (.settings .noRoots)
  if isBlankText s.pattern then throw (.settings .blankPattern)
  let _ ← readGlob s.pattern
  let _ ← s.exclude.mapM readGlob
  if s.languages = some [] then throw (.settings .noLanguages)

def checkDiagrams (s : DiagramSettings) : Except Failure Unit :=
  if s.kinds = some [] then .error (.settings .noKinds) else .ok ()

def checkOutput (s : OutputSettings) : Except Failure Unit := do
  checkFileName .overview s.overviewFile
  checkFileName .module s.moduleFile
  if s.overviewFile = s.moduleFile then throw (.settings .sameNames)

def check (s : Settings) : Except Failure Unit := do
  checkDiscovery s.discovery
  checkDiagrams s.diagrams
  checkOutput s.output

end Settings
end CodeAtlas
