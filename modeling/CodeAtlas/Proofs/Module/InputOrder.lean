import CodeAtlas.Proofs.Module.ClassOrder
import CodeAtlas.Proofs.Module.SameModules
import CodeAtlas.Proofs.Module.Totals

/-!
# The order of the input

The nodes of a tree are the same for the same roots, files and classes in any order. The names of a
module come from the components of its innermost root, of which there is one; slots depend on which
names are met, not on when; and classes that no field of the order tells apart are alike but for
the spelling of their file's path.
-/
namespace CodeAtlas
open Slots

namespace ModuleRoot

/-- Whether two lists name the same directories, in any order and as often as they like. -/
def SameRoots (ps qs : List Path) : Prop :=
  ∀ cs, cs ∈ ps.map Path.components ↔ cs ∈ qs.map Path.components

theorem label_congr {p q : Path} (h : p.components = q.components) :
    (ofPath p).label = (ofPath q).label := by
  simp only [ofPath, Path.fileName?, h]

theorem nodup_components_ofPaths (ps : List Path) :
    ((ofPaths ps).map (·.path.components)).Nodup := by
  have hkept : ((ps.foldl keepNew []).map Path.components).Nodup := by
    induction ps using List.reverseRecOn with
    | nil => exact List.nodup_nil
    | append_singleton ps p ih =>
      rw [List.foldl_append, List.foldl_cons, List.foldl_nil, keepNew]
      split
      · exact ih
      next hnew =>
        refine List.nodup_cons.2 ⟨fun hmem => hnew ?_, ih⟩
        obtain ⟨q, hq, he⟩ := List.mem_map.1 hmem
        exact List.any_eq_true.2 ⟨q, hq, Path.same_iff.2 he.symm⟩
  have hmap : (ofPaths ps).map (·.path.components) =
      ((ps.foldl keepNew []).map Path.components).reverse := by
    rw [ofPaths, List.map_map, ← List.map_reverse]
    rfl
  rw [hmap]
  exact List.nodup_reverse.2 hkept

theorem mem_components_ofPaths {ps : List Path} {cs : List Component} :
    cs ∈ (ofPaths ps).map (·.path.components) ↔ cs ∈ ps.map Path.components := by
  constructor
  · intro h
    obtain ⟨r, hr, rfl⟩ := List.mem_map.1 h
    obtain ⟨p, hp, rfl⟩ := mem_ofPaths hr
    exact List.mem_map_of_mem hp
  · intro h
    obtain ⟨p, hp, rfl⟩ := List.mem_map.1 h
    obtain ⟨r, hr, he⟩ := exists_mem_ofPaths hp
    exact List.mem_map.2 ⟨r, hr, he⟩

namespace SameRoots
variable {ps qs : List Path}

theorem symm (h : SameRoots ps qs) : SameRoots qs ps := fun cs => (h cs).symm

theorem exists_mem (h : SameRoots ps qs) {p : Path} (hp : p ∈ ps) :
    ∃ q ∈ qs, q.components = p.components :=
  List.mem_map.1 ((h _).1 (List.mem_map_of_mem hp))

theorem innermost_eq (h : SameRoots ps qs) {dir p q : Path} (hp : Path.Innermost ps dir p)
    (hq : Path.Innermost qs dir q) : p.components = q.components := by
  obtain ⟨p', hp', hpe⟩ := h.exists_mem hp.mem
  obtain ⟨q', hq', hqe⟩ := h.symm.exists_mem hq.mem
  have hle : p.components.length ≤ q.components.length := by
    rw [← hpe]
    apply hq.longest p' hp'
    rw [Path.Contains, hpe]
    exact hp.contains
  have hge : q.components.length ≤ p.components.length := by
    rw [← hqe]
    apply hp.longest q' hq'
    rw [Path.Contains, hqe]
    exact hq.contains
  exact (List.prefix_of_prefix_length_le hp.contains hq.contains hle).eq_of_length_le hge

theorem moduleNames?_eq (h : SameRoots ps qs) (dir : Path) :
    moduleNames? (ofPaths ps) dir = moduleNames? (ofPaths qs) dir := by
  by_cases hroot : ∃ p ∈ ps, p.Contains dir
  · have hroot' : ∃ q ∈ qs, q.Contains dir := by
      obtain ⟨p, hp, hdir⟩ := hroot
      obtain ⟨q, hq, he⟩ := h.exists_mem hp
      exact ⟨q, hq, by rwa [Path.Contains, he]⟩
    obtain ⟨p, hp, hnames⟩ := moduleNames?_ofPaths hroot
    obtain ⟨q, hq, hnames'⟩ := moduleNames?_ofPaths hroot'
    have he := h.innermost_eq hp hq
    rw [hnames, hnames', he, label_congr he]
  · have hroot' : ∀ q ∈ qs, ¬ q.Contains dir := by
      intro q hq hdir
      obtain ⟨p, hp, he⟩ := h.symm.exists_mem hq
      exact hroot ⟨p, hp, by rwa [Path.Contains, he]⟩
    rw [moduleNames?_ofPaths_eq_none fun p hp hdir => hroot ⟨p, hp, hdir⟩,
      moduleNames?_ofPaths_eq_none hroot']

theorem components_perm (h : SameRoots ps qs) :
    ((ofPaths ps).map (·.path.components)).Perm ((ofPaths qs).map (·.path.components)) := by
  rw [List.perm_ext_iff_of_nodup (nodup_components_ofPaths ps) (nodup_components_ofPaths qs)]
  intro cs
  rw [mem_components_ofPaths, mem_components_ofPaths]
  exact h cs

/-- There is a topmost name only if there is one root, and then its label is the same. -/
theorem topNames_eq (h : SameRoots ps qs) : topNames (ofPaths ps) = topNames (ofPaths qs) := by
  have hperm := h.components_perm
  have hlabel : ∀ r ∈ ofPaths ps, ∀ s ∈ ofPaths qs, r.path.components = s.path.components →
      r.label = s.label := by
    intro r hr s hs he
    obtain ⟨p, -, rfl⟩ := mem_ofPaths hr
    obtain ⟨q, -, rfl⟩ := mem_ofPaths hs
    exact label_congr he
  have hlength := hperm.length_eq
  rw [List.length_map, List.length_map] at hlength
  match hps : ofPaths ps, hqs : ofPaths qs with
  | [], [] => rfl
  | [r], [s] =>
    rw [hps, hqs] at hperm
    have he : r.path.components = s.path.components := by simpa using hperm
    have hr := hlabel r (by simp [hps]) s (by simp [hqs]) he
    simp only [topNames, hr]
  | _ :: _ :: _, _ :: _ :: _ => rfl
  | [], _ :: _ => simp [hps, hqs] at hlength
  | _ :: _, [] => simp [hps, hqs] at hlength
  | [_], _ :: _ :: _ => simp [hps, hqs] at hlength
  | _ :: _ :: _, [_] => simp [hps, hqs] at hlength

theorem slotsOf_eq (h : SameRoots ps qs) (files : List SourceFile) (classes : List ClassInfo) :
    slotsOf (ofPaths ps) files classes = slotsOf (ofPaths qs) files classes := by
  have hnames : moduleNames? (ofPaths ps) = moduleNames? (ofPaths qs) :=
    funext h.moduleNames?_eq
  have hplace : Placement.ofClass (ofPaths ps) = Placement.ofClass (ofPaths qs) := by
    funext c
    simp only [Placement.ofClass, hnames, h.topNames_eq]
  have hpackages : packageKeys (ofPaths ps) files = packageKeys (ofPaths qs) files := by
    simp only [packageKeys, hnames]
  simp only [slotsOf, hplace, hpackages, h.topNames_eq]

end SameRoots
end ModuleRoot

/-- Which directories are packages does not depend on the order of the files. -/
theorem slotsOf_perm_files (roots : List ModuleRoot) {files files' : List SourceFile}
    (h : files.Perm files') (classes : List ClassInfo) :
    slotsOf roots files classes = slotsOf roots files' classes := by
  have hcontains : ∀ k, (packageKeys roots files).contains k =
      (packageKeys roots files').contains k := by
    intro k
    have hperm : (packageKeys roots files).Perm (packageKeys roots files') := h.filterMap _
    rw [Bool.eq_iff_iff, List.contains_iff_mem, List.contains_iff_mem, hperm.mem_iff]
  have hslot : slotOf roots files classes = slotOf roots files' classes := by
    funext k
    simp only [slotOf, hcontains]
  rw [slotsOf_eq, slotsOf_eq, hslot]

theorem nodes_aggregate_congr {ps qs : List Path} (h : ModuleRoot.SameRoots ps qs)
    {files files' : List SourceFile} (hfiles : files.Perm files') (classes : List ClassInfo) :
    (aggregate ps files classes).tree.nodes.toList =
      (aggregate qs files' classes).tree.nodes.toList := by
  rw [aggregate_nodes, aggregate_nodes, h.slotsOf_eq, slotsOf_perm_files _ hfiles, topKey, topKey,
    h.topNames_eq]

/-! ### Classes -/

def ClassInfo.byComponents (c : ClassInfo) : List Component × ClassInfo :=
  (c.file.components, { c with file := ⟨""⟩ })

def ModuleNode.byComponents (n : ModuleNode) : List (List Component × ClassInfo) × ModuleNode :=
  (n.classes.map ClassInfo.byComponents, { n with classes := [] })

theorem ClassInfo.byComponents_eq {a b : ClassInfo} (h : a.cmp b = .eq) :
    a.byComponents = b.byComponents := by
  simp only [cmp, cmpClasses, Ordering.then_eq_eq, compare_eq_iff_eq] at h
  obtain ⟨hfile, hstart, hname, hend, hloc, hmethods⟩ := h
  have hfile : a.file.components = b.file.components := Std.LawfulEqCmp.eq_of_compare hfile
  simp only [byComponents, hfile, hstart, hname, hend, hloc, hmethods]

theorem sortClasses_byComponents {cs ds : List ClassInfo} (h : cs.Perm ds) :
    (sortClasses cs).map ClassInfo.byComponents = (sortClasses ds).map ClassInfo.byComponents := by
  have hperm : (sortClasses cs).Perm (sortClasses ds) :=
    (sortClasses_perm cs).trans (h.trans (sortClasses_perm ds).symm)
  have hsorted : ∀ xs, ((sortClasses xs).map ClassInfo.byComponents).Pairwise
      fun a b => (cmpClasses a b).isLE = true := fun xs =>
    List.pairwise_map.2 (pairwise_sortClasses xs)
  refine List.Perm.eq_of_pairwise ?_ (hsorted cs) (hsorted ds) (hperm.map _)
  -- Classes of which each may stand before the other agree in all that the order looks at.
  intro x y hx hy hxy hyx
  obtain ⟨a, -, rfl⟩ := List.mem_map.1 hx
  obtain ⟨b, -, rfl⟩ := List.mem_map.1 hy
  apply ClassInfo.byComponents_eq
  have hab : (a.cmp b).isLE = true := hxy
  have hba : (b.cmp a).isLE = true := hyx
  exact Std.OrientedCmp.isLE_antisymm hab hba

/-! ### Trees -/

theorem belowAt_eq_of_keys_eq {nodes nodes' : List ModuleNode}
    (h : nodes.map (·.key) = nodes'.map (·.key)) : belowAt nodes = belowAt nodes' := by
  have hlength : nodes.length = nodes'.length := by simpa using congrArg List.length h
  have hkey : keyAt nodes = keyAt nodes' := by
    funext i
    rw [keyAt, keyAt, ← List.getElem?_map, ← List.getElem?_map, h]
  funext i
  rw [belowAt, belowAt, hkey, hlength]

theorem byComponents_eq_of_outline {n m : ModuleNode} (h : outline n = outline m)
    (hclasses : n.classes.map ClassInfo.byComponents = m.classes.map ClassInfo.byComponents)
    (hown : n.own = m.own) (hstats : n.stats = m.stats) : n.byComponents = m.byComponents := by
  obtain ⟨⟩ := n
  obtain ⟨⟩ := m
  simp_all [outline, ModuleNode.byComponents]

section Classes
variable {ps : List Path} {cs ds : List ClassInfo} (h : cs.Perm ds) (files : List SourceFile)
include h

theorem sameNames_of_perm (roots : List ModuleRoot) : SameNames roots cs ds := by
  intro names
  constructor
  · rintro ⟨c, hc, he⟩
    exact ⟨c, h.mem_iff.1 hc, he⟩
  · rintro ⟨d, hd, he⟩
    exact ⟨d, h.mem_iff.2 hd, he⟩

theorem get_byComponents_of_perm {i : Nat} (hi : i < (aggregate ps files cs).tree.size) :
    ((aggregate ps files cs).tree.get i).byComponents =
      ((aggregate ps files ds).tree.get i).byComponents := by
  have hsame := sameNames_of_perm h (ModuleRoot.ofPaths ps)
  have ht := aggregate_built ps files cs
  have hu := aggregate_built ps files ds
  have hsize := hsame.size_eq files
  have hkeys : (aggregate ps files cs).tree.nodes.toList.map (·.key) =
      (aggregate ps files ds).tree.nodes.toList.map (·.key) := by
    rw [ht.keys_eq, hu.keys_eq, hsame.moduleKeys_eq]
  have hfilter : ∀ j < (aggregate ps files cs).tree.size,
      (cs.filter fun c => classKey (ModuleRoot.ofPaths ps) c =
        ((aggregate ps files cs).tree.get j).key).Perm
      (ds.filter fun c => classKey (ModuleRoot.ofPaths ps) c =
        ((aggregate ps files ds).tree.get j).key) := by
    intro j hj
    rw [key_eq_of_keys_eq hkeys hj]
    exact h.filter _
  have hown : ∀ j < (aggregate ps files cs).tree.size,
      ((aggregate ps files cs).tree.get j).own = ((aggregate ps files ds).tree.get j).own := by
    intro j hj
    rw [ht.get_own hj, hu.get_own (hsize ▸ hj), ht.get_classes hj, hu.get_classes (hsize ▸ hj)]
    apply Stats.ofClasses_perm
    exact (sortClasses_perm _).trans ((hfilter j hj).trans (sortClasses_perm _).symm)
  apply byComponents_eq_of_outline (hsame.outline_get files hi)
  · rw [ht.get_classes hi, hu.get_classes (hsize ▸ hi)]
    exact sortClasses_byComponents (hfilter i hi)
  · exact hown i hi
  · rw [ht.get_stats_eq_sum hi, hu.get_stats_eq_sum (hsize ▸ hi),
      ModuleTree.subtree_eq ht.linked hi, ModuleTree.subtree_eq hu.linked (hsize ▸ hi),
      ← belowAt_eq_of_keys_eq hkeys]
    congr 1
    apply List.map_congr_left
    intro j hj
    exact hown j (mem_belowAt.1 hj).1

end Classes

/-- The same roots, files and classes in any order give the same nodes. -/
theorem aggregate_nodes_unordered {ps qs : List Path} {files files' : List SourceFile}
    {cs ds : List ClassInfo} (hroots : ModuleRoot.SameRoots ps qs) (hfiles : files.Perm files')
    (hclasses : cs.Perm ds) :
    (aggregate ps files cs).tree.nodes.toList.map ModuleNode.byComponents =
      (aggregate qs files' ds).tree.nodes.toList.map ModuleNode.byComponents := by
  rw [← nodes_aggregate_congr hroots hfiles ds, ModuleTree.toList_eq_map,
    ModuleTree.toList_eq_map, List.map_map, List.map_map,
    ← (sameNames_of_perm hclasses (ModuleRoot.ofPaths ps)).size_eq files]
  apply List.map_congr_left
  intro i hi
  exact get_byComponents_of_perm hclasses files (List.mem_range.1 hi)

/-- Nested roots, one of them named twice, a directory spelled in two ways and a class listed twice,
each list turned round. -/
theorem nodes_unordered_nestedRoots :
    let roots : List Path := [⟨"/r"⟩, ⟨"/r/Lib"⟩]
    let roots' : List Path := [⟨"/r/Lib/"⟩, ⟨"/r"⟩, ⟨"/r/Lib"⟩]
    let files : List SourceFile :=
      [⟨⟨"/r/x/index.js"⟩, .javaScript, ""⟩, ⟨⟨"/r/a.py"⟩, .python, ""⟩]
    let classes : List ClassInfo :=
      [⟨"A", ⟨"/r/x/a.py"⟩, 1, 0, 1, 1⟩, ⟨"B", ⟨"/r/X/b.py"⟩, 2, 1, 1, 2⟩,
        ⟨"A", ⟨"/r//x/a.py"⟩, 1, 0, 1, 1⟩, ⟨"C", ⟨"/r/Lib/c.py"⟩, 3, 2, 1, 3⟩]
    ModuleRoot.SameRoots roots roots' ∧ files.Perm files.reverse ∧ classes.Perm classes.reverse ∧
      (aggregate roots files classes).tree.nodes.toList.map ModuleNode.byComponents =
        (aggregate roots' files.reverse classes.reverse).tree.nodes.toList.map
          ModuleNode.byComponents := by
  intro roots roots' files classes
  have hroots : ModuleRoot.SameRoots roots roots' := by
    have hlib : (Path.mk "/r/Lib/").components = (Path.mk "/r/Lib").components := by decide
    intro cs
    simp only [roots, roots', List.map_cons, List.map_nil, List.mem_cons, hlib]
    tauto
  have hfiles : files.Perm files.reverse := files.reverse_perm.symm
  have hclasses : classes.Perm classes.reverse := classes.reverse_perm.symm
  exact ⟨hroots, hfiles, hclasses, aggregate_nodes_unordered hroots hfiles hclasses⟩

end CodeAtlas
