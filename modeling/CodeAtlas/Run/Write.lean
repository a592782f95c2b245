import CodeAtlas.Files.Change
import CodeAtlas.Run.Summary
import CodeAtlas.Run.Survey

/-!
# Runs

A run surveys a file tree and writes the documents below the output directory, side by side. Files
that are there already are replaced, and others are left alone. Which tree a run leaves may hang on
the order in which the documents come to do their calls.
-/
namespace CodeAtlas

/-- Does work on files whose faults mean a failure of the run. -/
def Filing.failingWith {α : Type} (failure : FileFault → Failure) (act : Filing FileFault α) :
    Filing Failure α :=
  ExceptT.adapt failure act

/-- The work of writing a document below a directory. -/
def Document.work (dir : Path) (d : Document) : Work Unit := do
  match (dir.join d.path).parent? with
  | some above => Work.makeDirectories above
  | none => pure ()
  Work.write (dir.join d.path) (.text d.content)

/-- Writes a document below a directory and gives its path. -/
def Document.write (dir : Path) (d : Document) : Filing Failure Path := do
  Filing.failingWith (.document (dir.join d.path)) (Filing.ofWork (d.work dir))
  return dir.join d.path

/--
What writing documents below a directory may come to, and the tree then, in whatever order the calls
of the documents are done. Where one of them fails, the others may have come to any of their calls.
-/
inductive WritesTo (dir : Path) (docs : List Document) (t : FileTree) :
    Except Failure (List Path) → FileTree → Prop
  | unprepared {e : FileFault} {u : FileTree}
      (h : (Work.makeDirectories dir).run t = (.error e, u)) :
    WritesTo dir docs t (.error (.outputDirectory dir e)) u
  | failed {v u : FileTree} {works : List (Work Unit)} {d : Document} {e : FileFault}
      (hdir : (Work.makeDirectories dir).run t = (.ok (), v))
      (h : Work.Steps (docs.map (Document.work dir)) v works u)
      (he : (d, .done (.error e)) ∈ docs.zip works) :
    WritesTo dir docs t (.error (.document (dir.join d.path) e)) u
  | written {v u : FileTree} (hdir : (Work.makeDirectories dir).run t = (.ok (), v))
      (h : Work.Steps (docs.map (Document.work dir)) v (docs.map fun _ => .done (.ok ())) u) :
    WritesTo dir docs t (.ok (docs.map fun d => dir.join d.path)) u

/--
Writes documents below a directory that is made if it is missing, and gives their paths. Of all that
this may come to it takes the plainest, one document after another.
-/
def writeDocuments (dir : Path) (docs : List Document) : Filing Failure (List Path) := do
  Filing.failingWith (.outputDirectory dir) (Filing.makeDirectories dir)
  docs.mapM (Document.write dir)

def Survey.summary (s : Survey) (written : List Path) : RunSummary where
  filesDiscovered := s.discovery.files.length
  filesAnalyzed := s.sources.length
  classesFound := s.classes.length
  modules := s.tree.size
  warnings := s.warnings
  documents := written
  kinds := s.settings.kinds
  outputDirectory := s.settings.outputDirectory

/-- Surveys the tree as the settings say and writes the documents. -/
def Settings.run (s : Settings) (r : Registry) : Filing Failure RunSummary := do
  let survey ← s.survey r (← get)
  return survey.summary (← writeDocuments survey.settings.outputDirectory survey.documents)

/-- What a run on a tree may come to, and the tree then. -/
def Settings.RunsTo (s : Settings) (r : Registry) (t : FileTree)
    (outcome : Except Failure RunSummary) (u : FileTree) : Prop :=
  match s.survey r t with
  | .error e => outcome = .error e ∧ u = t
  | .ok v => ∃ written, WritesTo v.settings.outputDirectory v.documents t written u ∧
      outcome = written.map v.summary

end CodeAtlas
