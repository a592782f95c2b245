import CodeAtlas.Module.Tree

/-!
# Slots

A slot gathers what is known about one module before the module has its place in the tree. Slots
are kept in the order of their keys, one for each key. A class opens a slot for its directory and
for every directory between there and the top.
-/
namespace CodeAtlas

/-- A class with the directory names, as spelled, of the module it goes to. -/
structure Placement where
  names : List String
  dir : Path
  info : ClassInfo
  deriving DecidableEq, Repr

namespace Placement

def key (p : Placement) : ModuleKey := ModuleKey.ofNames p.names

/-- Classes of files outside all roots go to the topmost module. -/
def ofClass (roots : List ModuleRoot) (c : ClassInfo) : Placement :=
  let dir := c.file.parent?.getD ⟨""⟩
  ⟨(ModuleRoot.moduleNames? roots dir).getD (ModuleRoot.topNames roots), dir, c⟩

end Placement

structure Slot where
  key : ModuleKey
  /-- The directory names, spelled as they were first met. -/
  names : List String
  /-- All spellings of the last name, in order. -/
  spellings : List String
  /-- The directories of the module's own classes, in order. -/
  dirs : List Path
  classes : List ClassInfo
  isPackage : Bool
  deriving Repr

namespace Slot

def ofNames (names : List String) : Slot := ⟨ModuleKey.ofNames names, names, [], [], [], false⟩

def spell (names : List String) (s : Slot) : Slot :=
  match names.getLast? with
  | none => s
  | some last => { s with spellings := insertInOrder compare last s.spellings }

def addClass (p : Placement) (s : Slot) : Slot :=
  { s with dirs := insertInOrder Path.cmp p.dir s.dirs, classes := s.classes ++ [p.info] }

def markPackage (s : Slot) : Slot := { s with isPackage := true }

def isMerged (s : Slot) : Bool := 1 < s.spellings.length

/-- The only spelling of the last name, or the name in small letters if there are several. -/
def name (s : Slot) : String :=
  if s.isMerged then s.key.getLast?.getD "" else s.names.getLast?.getD ""

def conflictMessage (s : Slot) : String :=
  "directories differing only in case (" ++ ", ".intercalate s.spellings ++ ") merged as '" ++
    s.name ++ "'"

def conflict? (s : Slot) : Option Warning :=
  if s.isMerged then
    some (.conflict (s.dirs.head?.getD ⟨"/".intercalate s.names⟩) s.conflictMessage)
  else none

end Slot

/-- Names cut short, from `least` names on, and then the names as a whole. -/
def beginnings (least : Nat) (names : List String) : List (List String) :=
  (List.range' least (names.length - least)).map names.take ++ [names]

abbrev Slots := List Slot

namespace Slots

/-- Notes the spelling in the slot for the names; if there is none yet, it is opened. -/
def insert (slots : Slots) (names : List String) : Slots :=
  match slots with
  | [] => [(Slot.ofNames names).spell names]
  | s :: rest =>
    match ModuleKey.cmp (ModuleKey.ofNames names) s.key with
    | .lt => (Slot.ofNames names).spell names :: s :: rest
    | .eq => s.spell names :: rest
    | .gt => s :: insert rest names

def change (slots : Slots) (key : ModuleKey) (f : Slot → Slot) : Slots :=
  slots.map fun s => if s.key = key then f s else s

/-- Opens the slots for the names and for their beginnings that have at least `least` names. -/
def ensure (least : Nat) (slots : Slots) (names : List String) : Slots :=
  (beginnings least names).foldl insert slots

def place (least : Nat) (slots : Slots) (p : Placement) : Slots :=
  (slots.ensure least p.names).change p.key (Slot.addClass p)

/-- The slots of the top module and of all that the placements lead to. -/
def gather (top : List String) (placements : List Placement) : Slots :=
  placements.foldl (place top.length) (ensure top.length [] top)

def markPackages (slots : Slots) (keys : List ModuleKey) : Slots :=
  keys.foldl (fun slots key => slots.change key Slot.markPackage) slots

end Slots

def packageKeys (roots : List ModuleRoot) (files : List SourceFile) : List ModuleKey :=
  files.filterMap fun f =>
    if f.path.fileName?.any ModuleKind.isPackageMarker then
      (f.path.parent?.bind (ModuleRoot.moduleNames? roots)).map ModuleKey.ofNames
    else none

/-- The slots of all modules over the roots. Files only tell which directories are packages. -/
def slotsOf (roots : List ModuleRoot) (files : List SourceFile) (classes : List ClassInfo) :
    Slots :=
  let placements := classes.map (Placement.ofClass roots)
  (Slots.gather (ModuleRoot.topNames roots) placements).markPackages (packageKeys roots files)

end CodeAtlas
