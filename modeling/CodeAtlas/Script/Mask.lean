/-!
# Masking scripts

`mask` blanks out comments and the contents of strings and templates, so that what is left can be
searched for declarations and braces. Every character gives way to as many spaces as it has bytes
and line feeds stay, so byte offsets and lines are those of the source.

A template is hidden whole. What stands between `${` and its `}` is read by the rules of code, so
that strings, comments and templates inside it cannot hide its end.
-/
namespace CodeAtlas.Script

inductive Mode where
  | code
  | lineComment
  | blockComment
  | string (quote : Char)
  | template
  /-- Code inside a template, with the number of braces open there. -/
  | interpolation (depth : Nat)
  deriving DecidableEq, Repr

/-- What takes the place of a hidden character. -/
def blank (c : Char) : List Char :=
  if c = '\n' then ['\n'] else List.replicate c.utf8Size ' '

def shown (hidden : Bool) (c : Char) : List Char := if hidden then blank c else [c]

/-- The outcome of one step: the modes, innermost first, and the text that is written. -/
structure Step where
  modes : List Mode
  written : List Char
  /-- Whether the character after this one has been dealt with too. -/
  takesNext : Bool := false
  deriving DecidableEq, Repr

/-- A brace in the code of an interpolation: the last `}` leaves it. -/
def Mode.brace (modes : List Mode) (c : Char) : List Mode :=
  match modes with
  | .interpolation depth :: outer =>
    if c = '{' then .interpolation (depth + 1) :: outer
    else if depth = 0 then outer
    else .interpolation (depth - 1) :: outer
  | _ => modes

/-- Whether the scan is inside of a template, be it in code there. -/
def inTemplate (modes : List Mode) : Bool := modes.contains .template

/-- A step in code, be it of an interpolation. -/
def stepCode (modes : List Mode) (c : Char) (next : Option Char) : Step :=
  let hidden := inTemplate modes
  if c = '/' && next = some '/' then ⟨.lineComment :: modes, [' ', ' '], true⟩
  else if c = '/' && next = some '*' then ⟨.blockComment :: modes, [' ', ' '], true⟩
  else if c = '\x22' || c = '\x27' then ⟨.string c :: modes, shown hidden c, false⟩
  else if c = '\x60' then ⟨.template :: modes, shown hidden c, false⟩
  else if (c = '{' || c = '}') && hidden then ⟨Mode.brace modes c, blank c, false⟩
  else ⟨modes, shown hidden c, false⟩

/-- A backslash hides itself and the character after it. -/
def stepEscape (modes : List Mode) (c : Char) (next : Option Char) : Step :=
  ⟨modes, blank c ++ (next.map blank).getD [], true⟩

/-- One step of the scan at character `c`, with a look at the `next` one. -/
def step (modes : List Mode) (c : Char) (next : Option Char) : Step :=
  match modes with
  | .lineComment :: outer => ⟨if c = '\n' then outer else modes, blank c, false⟩
  | .blockComment :: outer =>
    if c = '*' && next = some '/' then ⟨outer, [' ', ' '], true⟩ else ⟨modes, blank c, false⟩
  | .string quote :: outer =>
    if c = '\\' then stepEscape modes c next
    else if c = quote then ⟨outer, shown (inTemplate outer) c, false⟩
    else if c = '\n' then ⟨outer, ['\n'], false⟩
    else ⟨modes, blank c, false⟩
  | .template :: outer =>
    if c = '\\' then stepEscape modes c next
    else if c = '$' && next = some '{' then ⟨.interpolation 0 :: modes, [' ', ' '], true⟩
    else if c = '\x60' then ⟨outer, shown (inTemplate outer) c, false⟩
    else ⟨modes, blank c, false⟩
  | _ => stepCode modes c next

/-- Scans on in the given modes; `out` is the text written so far, reversed. -/
def maskFrom (modes : List Mode) (out : List Char) : List Char → List Char
  | [] => out.reverse
  | [c] => ((step modes c none).written.reverse ++ out).reverse
  | c :: next :: rest =>
    let s := step modes c (some next)
    let out := s.written.reverse ++ out
    if s.takesNext then maskFrom s.modes out rest else maskFrom s.modes out (next :: rest)

def mask (source : List Char) : List Char := maskFrom [.code] [] source

end CodeAtlas.Script
