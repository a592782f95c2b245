import CodeAtlas.Files.Resolve

/-!
# Walks

A walk goes through a directory and all below it, depth first and in the order of the names, and
meets files and faults. Links are passed over, or followed unless they lead back to a directory
that the walk is in.
-/
namespace CodeAtlas

/-- What keeps a walk from an entry. -/
inductive WalkFault where
  | unreadable (path : Path) (fault : FileFault)
  /-- The link leads back to the directory `above`. -/
  | cycle (path above : Path)
  deriving DecidableEq, Repr

namespace WalkFault

def path : WalkFault → Path
  | unreadable p _ => p
  | cycle p _ => p

def message : WalkFault → String
  | unreadable p fault => "IO error for operation on " ++ p.text ++ ": " ++ fault.message
  | cycle p above =>
    "File system loop found: " ++ p.text ++ " points to an ancestor " ++ above.text

end WalkFault

/-- What a walk meets; a file is known by the names that lead to it from where the walk began. -/
inductive Encounter where
  | file (names : List String)
  | fault (f : WalkFault)
  deriving DecidableEq, Repr

namespace Encounter

def file? : Encounter → Option (List String)
  | file names => some names
  | fault _ => none

def fault? : Encounter → Option WalkFault
  | fault f => some f
  | file _ => none

end Encounter

/-- A directory that a walk is in: the names by which it was reached and where it really is. -/
structure OpenDirectory where
  names : List String
  location : Location
  deriving DecidableEq, Repr

/-- How to walk: whether links are followed, and which names lead to what is left out. -/
structure WalkRule where
  followLinks : Bool
  leavesOut : List String → Bool

namespace FileTree

/--
Walks through the directories that are open, the innermost first, from the location `root`. No
walk is deeper than `fuel`.
-/
def walkFrom (t : FileTree) (rule : WalkRule) (root : Location) :
    Nat → OpenDirectory → List OpenDirectory → List Encounter
  | 0, _, _ => []
  | fuel + 1, here, above =>
    (t.childNames here.location).flatMap fun name =>
      let names := here.names ++ [name]
      let enter (l : Location) : List Encounter :=
        if rule.leavesOut names then []
        else if t.isDirectory l then walkFrom t rule root fuel ⟨names, l⟩ (here :: above)
        else [.file names]
      match t.find? (here.location ++ [name]) with
      | none => []
      | some (.link _) =>
        if !rule.followLinks then []
        else
          let path := Location.path (root ++ names)
          match t.resolveFrom maxLinks here.location [.normal name] with
          | .error e => [.fault (.unreadable path e)]
          | .ok l =>
            match (here :: above).find? fun d => t.isDirectory l && d.location = l with
            | some d => [.fault (.cycle path (Location.path (root ++ d.names)))]
            | none => enter l
      | some _ => enter (here.location ++ [name])

/-- No directory without cycles is nested deeper than this. -/
def depthBound (t : FileTree) : Nat := t.entries.foldl (fun n e => n + e.1.length + 1) 1

/-- All that is met from a location on, which may also be that of a file. -/
def walk (t : FileTree) (rule : WalkRule) (root : Location) : List Encounter :=
  if t.isDirectory root then t.walkFrom rule root t.depthBound ⟨[], root⟩ [] else [.file []]

end FileTree
end CodeAtlas
