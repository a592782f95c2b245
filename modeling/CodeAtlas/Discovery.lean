import CodeAtlas.Failure
import CodeAtlas.Files.Walk
import CodeAtlas.Glob.Matching
import CodeAtlas.Settings.Check
import CodeAtlas.Source

/-!
# Discovery

Finds the source files under a list of roots. A file is taken if no part of its path from the root
is excluded, its extension stands for a language that is asked for, and the path fits the pattern.
-/
namespace CodeAtlas

/-- A file that is taken, with the root it was found under. -/
structure FoundFile where
  path : Path
  root : Path
  language : Language
  deriving DecidableEq, Repr

def FoundFile.cmp (a b : FoundFile) : Ordering :=
  (a.path.cmp b.path).then <| (a.root.cmp b.root).then (compare a.language.rank b.language.rank)

structure Discovery where
  /-- In the order of their paths, each path once. -/
  files : List FoundFile
  warnings : List Warning
  deriving DecidableEq, Repr

def Discovery.languages (d : Discovery) : List Language :=
  Language.distinct (d.files.map (·.language))

/-- Which files are taken. -/
structure FileFilter where
  pattern : List Glob.Token
  exclude : List (List Glob.Token)
  /-- All languages if unset. -/
  languages : Option (List Language)
  /-- The languages of extensions in small letters, instead of the usual ones. -/
  extensions : Option (List (String × Language))
  followLinks : Bool

namespace FileFilter

def ofGlobs (pattern : String) (exclude : List String) : Except Failure FileFilter := do
  return ⟨← readGlob pattern, ← exclude.mapM readGlob, none, none, false⟩

def languageOf? (f : FileFilter) (p : Path) : Option Language :=
  match f.extensions with
  | none => Language.ofPath? p
  | some table => p.extension?.bind fun ext => table.lookup (Text.lower ext)

/-- Whether one of the exclude globs fits the names below a root. -/
def excludes (f : FileFilter) (names : List String) : Bool :=
  f.exclude.any fun glob => Glob.accepts glob (Path.ofNames names).text

/-- The language of the file that the names lead to from a root, if the file is taken. -/
def takes? (f : FileFilter) (root : Location) (names : List String) : Option Language :=
  match f.languageOf? (Location.path (root ++ names)) with
  | none => none
  | some l =>
    if f.languages.all (·.contains l) && Glob.accepts f.pattern (Path.ofNames names).text then
      some l
    else none

def walkRule (f : FileFilter) : WalkRule := ⟨f.followLinks, f.excludes⟩

end FileFilter

/-- The location of a root. -/
def FileTree.rootAt (t : FileTree) (root : Path) : Except Failure Location :=
  match t.resolve root with
  | .ok l => .ok l
  | .error _ => .error (.pathNotFound root)

/-- The files taken among those met in a walk from a root. -/
def FileFilter.taken (f : FileFilter) (root : Location) (met : List Encounter) : List FoundFile :=
  (met.filterMap Encounter.file?).filterMap fun names =>
    (f.takes? root names).map fun l => ⟨Location.path (root ++ names), Location.path root, l⟩

def WalkFault.warning (w : WalkFault) : Warning := .read w.path w.message

/-- Leaves out each file whose path is that of the one before; `last` is the path before all. -/
def firstOfEachPath (last : Option Path) : List FoundFile → List FoundFile
  | [] => []
  | f :: rest =>
    if last = some f.path then firstOfEachPath last rest
    else f :: firstOfEachPath (some f.path) rest

def sortFound (files : List FoundFile) : List FoundFile :=
  firstOfEachPath none (files.mergeSort fun a b => (a.cmp b).isLE)

/-- All files taken under the roots. -/
def discover (t : FileTree) (f : FileFilter) (roots : List Path) : Except Failure Discovery := do
  let places ← roots.mapM t.rootAt
  let walks := places.map fun root => (root, t.walk f.walkRule root)
  return {
    files := sortFound (walks.flatMap fun w => f.taken w.1 w.2)
    warnings := (walks.flatMap fun w => w.2.filterMap Encounter.fault?).map WalkFault.warning }

end CodeAtlas
