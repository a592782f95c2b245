import CodeAtlas.Files.Work

/-!
# Changing file trees

Making directories and writing files. An action that fails keeps what it has changed before.
Who may do what to an entry is not asked: nothing fails for want of a permission.
-/
namespace CodeAtlas

/-- Work on a file tree that can fail. -/
abbrev Filing (ε α : Type) := ExceptT ε (StateM FileTree) α

/-- The outcome of an action on a tree, with the tree afterwards. -/
def Filing.perform {ε α : Type} (act : Filing ε α) (t : FileTree) : Except ε α × FileTree :=
  StateT.run (ExceptT.run act) t

/-- The paths above a path, nearest first, after the path itself. -/
def Path.selfAndAbove : Nat → Path → List Path
  | 0, p => [p]
  | fuel + 1, p =>
    match p.parent? with
    | none => [p]
    | some q => p :: selfAndAbove fuel q

namespace FileTree

/--
Where an entry at a path would stand: its directory and, unless the path ends in a step that is no
name, its name. Slashes at the end do not count.
-/
def site (t : FileTree) (base : Location) (p : Path) :
    Except FileFault (Location × Option String) :=
  if p.text.isEmpty then .error .missing
  else
    match (Text.fields '/' p.text.toList).reverse.dropWhile List.isEmpty with
    | [] => .ok ([], none)
    | last :: above => do
      let steps := above.reverse.map Component.ofStep ++ [.current]
      let dir ← t.resolveFrom maxLinks base (if p.isAbsolute then .root :: steps else steps)
      return (dir, (Component.ofStep last).normal?)

def makeDirectory (t : FileTree) (p : Path) : Except FileFault FileTree := do
  match ← t.site t.current p with
  | (_, none) => throw .occupied
  | (dir, some name) =>
    let l := dir ++ [name]
    if (t.find? l).isSome then throw .occupied else return t.put l .directory

/--
The file at a path that bytes are written to, which may be there or be a new one, also one that a
link leads to.
-/
def target (t : FileTree) : Nat → Location → Path → Except FileFault Location
  | 0, _, _ => .error .tooManyLinks
  | links + 1, base, p => do
    match ← t.site base p with
    | (_, none) => throw .isDirectory
    | (dir, some name) =>
      if p.text.toList.getLast? = some '/' then throw .isDirectory
      match t.find? (dir ++ [name]) with
      | some (.link q) => target t links dir q
      | some .directory => throw .isDirectory
      | _ => return dir ++ [name]

/-- Where the bytes written to a path go. -/
def destination (t : FileTree) (p : Path) : Except FileFault Location :=
  t.target maxLinks t.current p

end FileTree

namespace Work

/-- Fails unless there is a directory. -/
def expectDirectory (p : Path) (e : FileFault) : Work Unit := do
  if !(← isDirectoryAt p) then fail e

/-- Makes one directory, unless there is one already. -/
def makeOne (p : Path) : Work Unit := do
  match ← attempt (·.makeDirectory p) with
  | .ok () => return
  | .error e => expectDirectory p e

/-- Makes the first of the paths a directory, after those above it where they are missing. -/
def makeFirst : List Path → Work Unit
  | [] => return
  | p :: above => do
    if p.text.isEmpty then return
    match ← attempt (·.makeDirectory p) with
    | .ok () => return
    | .error .missing =>
      makeFirst above
      makeOne p
    | .error e => expectDirectory p e

/-- Makes a directory and those above it; one that is there already is kept. -/
def makeDirectories (p : Path) : Work Unit :=
  makeFirst (p.selfAndAbove p.components.length)

/-- Writes a file in one call: nobody sees it half written. -/
def write (p : Path) (content : FileContent) : Work Unit := do
  done (← attempt fun t => return t.put (← t.destination p) (.file content))

end Work

namespace Filing

/-- Work that is done alone. -/
def ofWork {α : Type} (w : Work α) : Filing FileFault α := ExceptT.mk fun t => w.run t

def makeDirectories (p : Path) : Filing FileFault Unit := ofWork (.makeDirectories p)

def write (p : Path) (content : FileContent) : Filing FileFault Unit := ofWork (.write p content)

/-- Puts a link at a path whose directory is there. -/
def makeLink (p : Path) (target : Path) : Filing FileFault Unit := do
  let t ← get
  match ← t.site t.current p with
  | (_, none) => throw .occupied
  | (dir, some name) => set (t.put (dir ++ [name]) (.link target))

/-- Puts an entry at a path, below directories that are made if they are missing. -/
def place (p : Path) (e : FileEntry) : Filing FileFault Unit := do
  let above := p.parent?.getD ⟨""⟩
  match e with
  | .directory => makeDirectories p
  | .file content => do makeDirectories above; write p content
  | .link target => do makeDirectories above; makeLink p target

/-- Makes a directory, if it is missing, the one that relative paths start from. -/
def enter (p : Path) : Filing FileFault Unit := do
  makeDirectories p
  let t ← get
  set { t with current := ← t.resolve p }

/-- Removes a file or a directory with all that is in it; links are not followed. -/
def remove (p : Path) : Filing FileFault Unit := do
  let t ← get
  match ← t.site t.current p with
  | (_, none) => throw .isDirectory
  | (dir, some name) =>
    if (t.find? (dir ++ [name])).isNone then throw .missing
    set (t.erase (dir ++ [name]))

end Filing
end CodeAtlas
