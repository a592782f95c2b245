import CodeAtlas.Document.Layout
import CodeAtlas.Proofs.Diagram.ClassIds
import CodeAtlas.Proofs.Module.PathNames
import CodeAtlas.Proofs.Path.Links

namespace CodeAtlas

/-- The directory that the links in a document start from. -/
def DocumentTarget.directory (d : DocumentTarget) : Path := d.path.parent?.getD ⟨""⟩

def ModuleTree.documentedIds (t : ModuleTree) : List Nat :=
  (List.range t.size).filter fun i => (t.get i).hasContent

theorem ModuleTree.mem_documentedIds {t : ModuleTree} {i : Nat} :
    i ∈ t.documentedIds ↔ i < t.size ∧ (t.get i).hasContent = true := by
  rw [documentedIds, List.mem_filter, List.mem_range]

namespace Layout

structure Ordinary (l : Layout) : Prop where
  overviewFile : IsOrdinary l.overviewFile
  moduleFile : IsOrdinary l.moduleFile

def pages (l : Layout) (t : ModuleTree) : List DocumentTarget :=
  (l.targets t).filter fun d => !d.isOverview

def page (l : Layout) (t : ModuleTree) (i : Nat) : DocumentTarget :=
  ⟨i, (t.get i).documentPath l.moduleFile, false⟩

section Tree
variable {top : ModuleKey} {t : ModuleTree} (h : Linked top t.nodes.toList)
include h

theorem documented_eq : t.documented = t.documentedIds.map t.get := by
  rw [ModuleTree.documented, modules_eq h, List.filter_map]
  rfl

theorem targets_eq (l : Layout) :
    l.targets t = ⟨0, ⟨l.overviewFile⟩, true⟩ :: t.documentedIds.map (l.page t) := by
  have hroot : t.root.id = 0 := h.get_id h.length_pos
  rw [targets, hroot, documented_eq h, List.map_map]
  congr 1
  apply List.map_congr_left
  intro i hi
  rw [Function.comp_apply, h.get_id (ModuleTree.mem_documentedIds.1 hi).1]
  rfl

theorem scope_lt {l : Layout} {d : DocumentTarget} (hd : d ∈ l.targets t) : d.scope < t.size := by
  rw [targets_eq h] at hd
  rcases List.mem_cons.1 hd with rfl | hd
  · exact h.length_pos
  · obtain ⟨i, hi, rfl⟩ := List.mem_map.1 hd
    exact (ModuleTree.mem_documentedIds.1 hi).1

theorem pages_eq (l : Layout) : l.pages t = t.documentedIds.map (l.page t) := by
  rw [pages, targets_eq h, List.filter_cons_of_neg (by simp), List.filter_eq_self]
  intro d hd
  obtain ⟨i, -, rfl⟩ := List.mem_map.1 hd
  rfl

theorem page_mem_pages (l : Layout) {i : Nat} (hi : i < t.size)
    (hcontent : (t.get i).hasContent = true) : l.page t i ∈ l.pages t := by
  rw [pages_eq h]
  exact List.mem_map_of_mem (ModuleTree.mem_documentedIds.2 ⟨hi, hcontent⟩)

end Tree

section Names
variable {top : ModuleKey} {t : ModuleTree} {l : Layout} (h : Linked top t.nodes.toList)
  (hs : Spelled t) (hl : l.Ordinary)
include h hs hl

theorem exists_names_of_mem_targets {d : DocumentTarget} (hd : d ∈ l.targets t) :
    ∃ names file, IsModulePath names ∧ IsOrdinary file ∧
      d.path.components = names.map Component.ofName ++ [.normal file] := by
  rw [targets_eq h] at hd
  rcases List.mem_cons.1 hd with rfl | hd
  · exact ⟨[], l.overviewFile, IsModulePath.nil, hl.overviewFile, hl.overviewFile⟩
  · obtain ⟨i, hi, rfl⟩ := List.mem_map.1 hd
    have hnames := (hs.hasNames (ModuleTree.mem_documentedIds.1 hi).1).isModulePath
    refine ⟨(t.get i).pathNames, l.moduleFile, hnames, hl.moduleFile, ?_⟩
    have hfile : (Path.mk l.moduleFile).components = [.normal l.moduleFile] := hl.moduleFile
    rw [page, hnames.components_documentPath hl.moduleFile.isTail, hfile]

theorem path_descends {d : DocumentTarget} (hd : d ∈ l.targets t) : d.path.Descends := by
  obtain ⟨names, file, hnames, hfile, hpath⟩ := exists_names_of_mem_targets h hs hl hd
  apply (hnames.concat_of_isOrdinary hfile).descends
  rw [hpath, List.map_append, List.map_singleton, hfile.ofName_eq]

theorem directory_descends {d : DocumentTarget} (hd : d ∈ l.targets t) : d.directory.Descends := by
  obtain ⟨names, file, hnames, -, hpath⟩ := exists_names_of_mem_targets h hs hl hd
  obtain ⟨dir, hdir, hcomponents⟩ := Path.exists_parent? hpath
  rw [DocumentTarget.directory, hdir]
  exact hnames.descends hcomponents

theorem resolve_page {d : DocumentTarget} (hd : d ∈ l.targets t) {i : Nat} (hi : i < t.size)
    (hcontent : (t.get i).hasContent = true) :
    d.directory.resolve ⟨relativeLink d.directory ((t.get i).documentPath l.moduleFile)⟩ =
      (l.page t i).path.plain := by
  have hpage : l.page t i ∈ l.targets t :=
    (List.mem_filter.1 (page_mem_pages h l hi hcontent)).1
  have hpath : (t.get i).documentPath l.moduleFile = (l.page t i).path := rfl
  rw [hpath, Path.resolve_relativeLink (directory_descends h hs hl hd)
    (path_descends h hs hl hpage)]

end Names
end Layout
end CodeAtlas
