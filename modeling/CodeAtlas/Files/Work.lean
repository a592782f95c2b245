import CodeAtlas.Files.Resolve

/-!
# Work on file trees

Work is done call by call. A call sees the tree as it is then and changes it at one stroke, and what
is done next hangs on what it has seen. Between two calls others may have changed the tree.
-/
namespace CodeAtlas

inductive Work (α : Type) where
  | done (outcome : Except FileFault α)
  /-- Changes the tree, and goes on as the tree before the change tells. -/
  | call (change : FileTree → FileTree) (next : FileTree → Work α)

namespace Work
variable {α β : Type}

def fail (e : FileFault) : Work α := done (.error e)

def bind : Work α → (α → Work β) → Work β
  | done (.ok a), f => f a
  | done (.error e), _ => fail e
  | call change next, f => call change fun t => (next t).bind f

instance : Monad Work where
  pure a := done (.ok a)
  bind := bind

/-- Does the calls one after another, with nobody else at the tree. -/
def run : Work α → FileTree → Except FileFault α × FileTree
  | done outcome, t => (outcome, t)
  | call change next, t => (next t).run (change t)

/-- A call that answers whether it could change the tree. -/
def attempt (act : FileTree → Except FileFault FileTree) : Work (Except FileFault Unit) :=
  call (fun t => match act t with | .ok u => u | .error _ => t)
    fun t => return (act t).map fun _ => ()

def isDirectoryAt (p : Path) : Work Bool := call id fun t => return t.isDirectoryAt p

/--
From works that are done side by side on a tree to what is left of them, and the tree then, after
some of their calls. Whichever of them is not done may do the next call.
-/
inductive Steps : List (Work α) → FileTree → List (Work α) → FileTree → Prop
  | refl (ws : List (Work α)) (t : FileTree) : Steps ws t ws t
  | step (before after : List (Work α)) {change : FileTree → FileTree} {next : FileTree → Work α}
      {t u : FileTree} {ws : List (Work α)}
      (rest : Steps (before ++ next t :: after) (change t) ws u) :
    Steps (before ++ .call change next :: after) t ws u

end Work
end CodeAtlas
