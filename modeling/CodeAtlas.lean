import CodeAtlas.Main
import CodeAtlas.Proofs.Module.KeyOrder
import CodeAtlas.Proofs.Module.Gathering
import CodeAtlas.Proofs.Text.LetterCase
import CodeAtlas.Proofs.Module.Roots
import CodeAtlas.Proofs.Module.Arena
import CodeAtlas.Proofs.Module.RollUp
import CodeAtlas.Proofs.Module.Subtree
import CodeAtlas.Proofs.Module.Built
import CodeAtlas.Proofs.Module.Hierarchy
import CodeAtlas.Proofs.Module.Totals
import CodeAtlas.Proofs.Path.Join
import CodeAtlas.Proofs.Path.Names
import CodeAtlas.Proofs.Path.Links
import CodeAtlas.Proofs.Module.Naming
import CodeAtlas.Proofs.Module.Ownership
import CodeAtlas.Proofs.Python.Innermost
import CodeAtlas.Proofs.Script.Lexical
import CodeAtlas.Proofs.Script.Masking
import CodeAtlas.Proofs.Text.Bytes
import CodeAtlas.Proofs.Text.LineNumbers
import CodeAtlas.Proofs.Script.Pairing
import CodeAtlas.Proofs.Script.Layout
import CodeAtlas.Proofs.Script.Keywords
import CodeAtlas.Proofs.Script.Extents
import CodeAtlas.Proofs.Script.Bodies
import CodeAtlas.Proofs.Script.Nesting
import CodeAtlas.Proofs.Script.ClassLines
import CodeAtlas.Proofs.Script.Members
import CodeAtlas.Proofs.Script.Appending
import CodeAtlas.Proofs.Script.HiddenRest
import CodeAtlas.Proofs.Script.HiddenEnd
import CodeAtlas.Proofs.Script.WholeWords
import CodeAtlas.Proofs.Text.Offsets
import CodeAtlas.Proofs.Script.MemberBytes
import CodeAtlas.Proofs.Script.ByteOffsets
import CodeAtlas.Proofs.Module.ClassOrder
import CodeAtlas.Proofs.Path.Parent
import CodeAtlas.Proofs.Module.ModulePaths
import CodeAtlas.Proofs.Module.SameModules
import CodeAtlas.Proofs.Module.PathNames
import CodeAtlas.Proofs.Module.Lookup
import CodeAtlas.Proofs.Module.InputOrder
import CodeAtlas.Proofs.Module.Merges
import CodeAtlas.Proofs.Module.Conflicts
import CodeAtlas.Proofs.Module.ConflictPlaces
import CodeAtlas.Proofs.Diagram.FileNumbers
import CodeAtlas.Proofs.Diagram.IdTexts
import CodeAtlas.Proofs.Diagram.Nodes
import CodeAtlas.Proofs.Diagram.ClassIds
import CodeAtlas.Proofs.Diagram.Containment
import CodeAtlas.Proofs.Diagram.Renumbering
import CodeAtlas.Proofs.Diagram.IdStability
import CodeAtlas.Proofs.Document.Pages
import CodeAtlas.Proofs.Document.Links
import CodeAtlas.Proofs.Text.OneLine
import CodeAtlas.Proofs.Diagram.Lines
import CodeAtlas.Proofs.Diagram.Nest
import CodeAtlas.Proofs.Diagram.Refinement
import CodeAtlas.Proofs.Diagram.FreshIds
import CodeAtlas.Proofs.Diagram.Reading
import CodeAtlas.Proofs.Diagram.Quotes
import CodeAtlas.Proofs.Diagram.Boxes
import CodeAtlas.Proofs.Diagram.Agreement
import CodeAtlas.Proofs.Document.PageLines
import CodeAtlas.Proofs.Document.Anchors
import CodeAtlas.Proofs.Document.Fences
import CodeAtlas.Proofs.Outcomes
import CodeAtlas.Proofs.Document.Placement
import CodeAtlas.Proofs.Settings.Checked
import CodeAtlas.Proofs.Registry.Dispatch
import CodeAtlas.Proofs.Files.Trees
import CodeAtlas.Proofs.Files.Following
import CodeAtlas.Proofs.Files.Walks
import CodeAtlas.Proofs.Files.WalkDepth
import CodeAtlas.Proofs.Discovery.Sorting
import CodeAtlas.Proofs.Discovery.Exact
import CodeAtlas.Proofs.Files.Performing
import CodeAtlas.Proofs.Files.SideBySide
import CodeAtlas.Proofs.Run.Steps
import CodeAtlas.Proofs.Files.Growth
import CodeAtlas.Proofs.Files.Changes
import CodeAtlas.Proofs.Files.Linkless
import CodeAtlas.Proofs.Run.Rewriting
import CodeAtlas.Proofs.Run.Accounts
import CodeAtlas.Proofs.Run.Traces
import CodeAtlas.Proofs.Discovery.Unmoved
import CodeAtlas.Proofs.Run.Regeneration
import CodeAtlas.Proofs.Module.Blocks
import CodeAtlas.Proofs.Text.LineBytes
import CodeAtlas.Proofs.Script.ModeStack
import CodeAtlas.Proofs.Script.MaskedBytes
