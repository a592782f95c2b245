import CodeAtlas.Files.Tree

/-!
# Following paths

A path is followed step by step from the current directory, through links, to the location it
means. Every step needs a directory to stand in, also one that stays or goes up.
-/
namespace CodeAtlas

/-- A part of the text between slashes as a step; a void part stays where it is. -/
def Component.ofStep (field : List Char) : Component :=
  match field with
  | [] | ['.'] => .current
  | ['.', '.'] => .parent
  | cs => .normal (String.ofList cs)

/-- The steps a path takes, in order. -/
def Path.steps (p : Path) : List Component :=
  let body := (Text.fields '/' p.text.toList).map Component.ofStep
  if p.isAbsolute then .root :: body else body

namespace FileTree

/-- Takes steps from a location. At a link `jump` goes on with the link's steps and the rest. -/
def follow (t : FileTree) (jump : Location → List Component → Except FileFault Location) :
    Location → List Component → Except FileFault Location
  | l, [] => .ok l
  | l, step :: rest =>
    if !t.isDirectory l then .error .notDirectory
    else
      match step with
      | .root => follow t jump [] rest
      | .current => follow t jump l rest
      | .parent => follow t jump l.dropLast rest
      | .normal name =>
        match t.find? (l ++ [name]) with
        | none => .error .missing
        | some (.link target) => jump l (target.steps ++ rest)
        | some _ => follow t jump (l ++ [name]) rest

/-- Takes steps from a location through at most `links` links. -/
def resolveFrom (t : FileTree) : Nat → Location → List Component → Except FileFault Location
  | 0 => t.follow fun _ _ => .error .tooManyLinks
  | links + 1 => t.follow (t.resolveFrom links)

/-- How many links are followed for one path. -/
def maxLinks : Nat := 40

/-- The location that a path means. -/
def resolve (t : FileTree) (p : Path) : Except FileFault Location :=
  if p.text.isEmpty then .error .missing else t.resolveFrom maxLinks t.current p.steps

def existsAt (t : FileTree) (p : Path) : Bool :=
  match t.resolve p with
  | .ok _ => true
  | .error _ => false

def isDirectoryAt (t : FileTree) (p : Path) : Bool :=
  match t.resolve p with
  | .ok l => t.isDirectory l
  | .error _ => false

def isFileAt (t : FileTree) (p : Path) : Bool :=
  match t.resolve p with
  | .ok l => !t.isDirectory l
  | .error _ => false

/-- The text of the file at a path. -/
def read (t : FileTree) (p : Path) : Except FileFault String := do
  match t.find? (← t.resolve p) with
  | some (.file (.text s)) => return s
  | some (.file (.binary _)) => throw .notText
  | some .directory => throw .isDirectory
  | _ => throw .missing

/-- The files below the directory at a path, each with its path from there. -/
def listing (t : FileTree) (p : Path) : List (Path × FileContent) :=
  match t.resolve p with
  | .error _ => []
  | .ok l => t.entries.filterMap fun e =>
    match e.2 with
    | .file content =>
      if l.isPrefixOf e.1 && l ≠ e.1 then some (.ofNames (e.1.drop l.length), content) else none
    | _ => none

end FileTree
end CodeAtlas
