/-!
# TOML values

A document is a table. Tables remember how they came about, because a table can be opened only
once: by a header, by dotted keys, or in line.
-/
namespace CodeAtlas.Toml

/-- How a table came about. -/
inductive TableOrigin where
  /-- By a header of its own, or as the document. -/
  | header
  /-- By the header of a table below it. -/
  | implied
  /-- By a dotted key. -/
  | dotted
  deriving DecidableEq, Repr, Inhabited

inductive Value where
  | text (s : String)
  | flag (b : Bool)
  /-- A number, which is not looked into. -/
  | number
  /-- A date, a time or both, which is not looked into. -/
  | moment
  | list (xs : List Value)
  /-- A table written in line; it can be added to no more. -/
  | inline (entries : List (String × Value))
  | table (origin : TableOrigin) (entries : List (String × Value))
  /-- The tables of one repeated header, in order. -/
  | tables (ts : List (List (String × Value)))
  deriving Repr, Inhabited

abbrev Entries := List (String × Value)

/-- Puts a new value in the place of the one with this key, or at the end. -/
def Entries.set (entries : Entries) (key : String) (v : Value) : Entries :=
  if entries.any (·.1 = key) then entries.map fun e => if e.1 = key then (key, v) else e
  else entries ++ [(key, v)]

/--
Changes the table that a path of keys leads to and makes the tables on the way that are missing.
With `dotted` the path comes from a dotted key, which may not enter a table that has a header.
-/
def modifyAt (dotted : Bool) (change : TableOrigin → Entries → Option (TableOrigin × Entries)) :
    List String → TableOrigin → Entries → Option (TableOrigin × Entries)
  | [], origin, entries => change origin entries
  | key :: path, origin, entries =>
    let made : TableOrigin := if dotted then .dotted else .implied
    match entries.lookup key with
    | none => do
      let (o, inner) ← modifyAt dotted change path made []
      return (origin, Entries.set entries key (.table o inner))
    | some (.table o inner) => do
      if dotted && o = .header then none
      let (o, inner) ← modifyAt dotted change path o inner
      return (origin, Entries.set entries key (.table o inner))
    | some (.tables ts) => do
      let last ← ts.getLast?
      let (_, inner) ← modifyAt dotted change path .header last
      return (origin, Entries.set entries key (.tables (ts.dropLast ++ [inner])))
    | some _ => none

/-- Adds a value under a key; `isDotted` tells whether the key came with a path before it. -/
def addValue (isDotted : Bool) (key : String) (v : Value) (origin : TableOrigin)
    (entries : Entries) : Option (TableOrigin × Entries) :=
  if (origin = .dotted) ≠ isDotted then none
  else if entries.any (·.1 = key) then none
  else some (origin, entries ++ [(key, v)])

/-- Opens the table under a key for its header. -/
def openTable (key : String) (origin : TableOrigin) (entries : Entries) :
    Option (TableOrigin × Entries) :=
  match entries.lookup key with
  | none => some (origin, entries ++ [(key, .table .header [])])
  | some (.table .implied inner) => some (origin, Entries.set entries key (.table .header inner))
  | some _ => none

/-- Opens one more table under a key for its repeated header. -/
def appendTable (key : String) (origin : TableOrigin) (entries : Entries) :
    Option (TableOrigin × Entries) :=
  match entries.lookup key with
  | none => some (origin, entries ++ [(key, .tables [[]])])
  | some (.tables ts) => some (origin, Entries.set entries key (.tables (ts ++ [[]])))
  | some _ => none

end CodeAtlas.Toml
