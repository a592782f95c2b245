import CodeAtlas.Path

/-!
# Faults of file access

Why a path cannot be followed, read or written, with the words in which a system reports it.
-/
namespace CodeAtlas

inductive FileFault where
  | missing
  /-- Something else stands where a directory is to be made. -/
  | occupied
  | notDirectory
  | isDirectory
  /-- More links in a row than are followed. -/
  | tooManyLinks
  /-- The bytes are no text. -/
  | notText
  /-- The file's extension belongs to no language. -/
  | noAnalyzer (path : Path)
  deriving DecidableEq, Repr

def FileFault.message : FileFault → String
  | missing => "No such file or directory (os error 2)"
  | occupied => "File exists (os error 17)"
  | notDirectory => "Not a directory (os error 20)"
  | isDirectory => "Is a directory (os error 21)"
  | tooManyLinks => "Too many levels of symbolic links (os error 40)"
  | notText => "stream did not contain valid UTF-8"
  | noAnalyzer p => "no analyzer for " ++ p.text

end CodeAtlas
