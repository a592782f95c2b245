import CodeAtlas.Files.Resolve
import CodeAtlas.Settings.Check
import CodeAtlas.Toml.Reader

/-!
# Settings files

Reads settings from TOML. A setting that is missing has its default, one that nothing is known of
is passed over, and a value of the wrong type makes the file unreadable.
-/
namespace CodeAtlas
namespace Toml

def Value.text? : Value → Option String
  | text s => some s
  | _ => none

def Value.flag? : Value → Option Bool
  | flag b => some b
  | _ => none

def Value.list? {α : Type} (read : Value → Option α) : Value → Option (List α)
  | list xs => xs.mapM read
  | tables ts => ts.mapM fun entries => read (table .header entries)
  | _ => none

def Value.isEmptyGroup : Value → Bool
  | list xs => xs.isEmpty
  | inline entries | table _ entries => entries.isEmpty
  | _ => false

/-- One of some named values: its name, or a table that has it as its only key and is empty there. -/
def Value.choice? {α : Type} (all : List α) (name : α → String) : Value → Option α
  | text s => all.find? fun a => name a = s
  | inline [(key, v)] | table _ [(key, v)] =>
    if v.isEmptyGroup then all.find? fun a => name a = key else none
  | _ => none

/-- The values of a record with the given keys, looked up by key. -/
abbrev Record := String → Option Value

/-- A record is a table, or a list of its values in the order of the keys; a date has none of them. -/
def Value.record? (keys : List String) : Value → Option Record
  | inline entries | table _ entries => some fun key => entries.lookup key
  | list xs => some fun key => (keys.idxOf? key).bind fun i => xs[i]?
  | tables ts => some fun key => (keys.idxOf? key).bind fun i => ts[i]?.map (table .header)
  | moment => some fun _ => none
  | _ => none

/-- Reads the value of a key if it is there. -/
def Record.read {α : Type} (r : Record) (key : String) (read : Value → Option α) (fallback : α) :
    Option α :=
  match r key with
  | none => some fallback
  | some v => read v

end Toml

open Toml (Value)

def DiscoverySettings.ofToml? (v : Value) : Option DiscoverySettings := do
  let base : DiscoverySettings := {}
  let r ← v.record? ["roots", "pattern", "exclude", "languages", "follow_links"]
  return {
    roots := ← r.read "roots" (Value.list? fun v => v.text?.map Path.mk) base.roots
    pattern := ← r.read "pattern" Value.text? base.pattern
    exclude := ← r.read "exclude" (Value.list? Value.text?) base.exclude
    languages := ← r.read "languages"
      (fun v => (v.list? (Value.choice? Language.all Language.name)).map some) base.languages
    followLinks := ← r.read "follow_links" Value.flag? base.followLinks }

def DiagramSettings.ofToml? (v : Value) : Option DiagramSettings := do
  let base : DiagramSettings := {}
  let r ← v.record? ["kinds", "direction"]
  return {
    kinds := ← r.read "kinds"
      (fun v => (v.list? (Value.choice? DiagramKind.all DiagramKind.name)).map some) base.kinds
    direction := ← r.read "direction" (Value.choice? Direction.all Direction.name)
      base.direction }

def OutputSettings.ofToml? (v : Value) : Option OutputSettings := do
  let base : OutputSettings := {}
  let r ← v.record? ["directory", "overview_file", "module_file"]
  return {
    directory := ← r.read "directory" (fun v => v.text?.map Path.mk) base.directory
    overviewFile := ← r.read "overview_file" Value.text? base.overviewFile
    moduleFile := ← r.read "module_file" Value.text? base.moduleFile }

namespace Settings

def ofToml? (text : String) : Option Settings := do
  let entries ← Toml.parse? text
  let r : Toml.Record := fun key => entries.lookup key
  return {
    discovery := ← r.read "discovery" DiscoverySettings.ofToml? {}
    diagrams := ← r.read "diagrams" DiagramSettings.ofToml? {}
    output := ← r.read "output" OutputSettings.ofToml? {} }

/-- Reads and checks the settings in a file. -/
def load (t : FileTree) (p : Path) : Except Failure Settings :=
  if !t.existsAt p then .error (.pathNotFound p)
  else
    match t.read p with
    | .error e => .error (.file e)
    | .ok text =>
      match ofToml? text with
      | none => .error .unreadableSettings
      | some s => s.check.map fun _ => s

/-- The settings file that is read without being named. -/
def usualFile : Path := ⟨"designmap.toml"⟩

/-- The settings in the named file, else in the usual one if it is there, else the defaults. -/
def locate (t : FileTree) (named : Option Path) : Except Failure Settings :=
  match named with
  | some p => load t p
  | none => if t.isFileAt usualFile then load t usualFile else .ok {}

end Settings
end CodeAtlas
