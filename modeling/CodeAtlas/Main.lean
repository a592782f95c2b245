import CodeAtlas.CommandLine.Usage
import CodeAtlas.Files.Bundle

/-!
# The command line

Carries out a command on a file tree that is read as a bundle from standard input. After what the
command prints come the files and directories that it has made or changed, as a bundle again.
-/
namespace CodeAtlas

/-- Carries out a command on the file tree of a bundle. -/
def Request.performOn (r : Request) (bundle : List Char) : Printout :=
  match FileTree.ofBundle bundle with
  | .error e => ⟨"", "Error: " ++ e.message ++ "\n", 1⟩
  | .ok t =>
    let (p, after) := r.perform t
    let changed := (t.changesAfter after).flatMap BundleItem.toLines
    { p with output := p.output ++ String.join (changed.map (· ++ "\n")) }

/-- What is left of a stream, after `text`. -/
partial def readRest (input : IO.FS.Stream) (text : String) : IO String := do
  let line ← input.getLine
  if line.isEmpty then return text else readRest input (text ++ line)

def Printout.show (p : Printout) : IO UInt32 := do
  (← IO.getStdout).putStr p.output
  (← IO.getStderr).putStr p.errors
  return p.code.toUInt32

end CodeAtlas

def main (args : List String) : IO UInt32 := do
  match CodeAtlas.Request.read args with
  | .error stop => stop.printout.show
  | .ok request =>
    let bundle ← CodeAtlas.readRest (← IO.getStdin) ""
    (request.performOn bundle.toList).show
