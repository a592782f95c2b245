import CodeAtlas.Proofs.Diagram.Renumbering

/-!
# Which ids stay

A class that is added to a file behind the others of this file leaves all ids as they are. The
first class of a file does so only for the files before it: in the files behind it, each class of
the module gets an id with the next file number.
-/
namespace CodeAtlas

section Modules
variable {rootPaths : List Path} {cs ds : List ClassInfo}

theorem SameNames.moduleIds_eq (h : SameNames (ModuleRoot.ofPaths rootPaths) cs ds)
    (hcs : cs ≠ []) (hds : ds ≠ []) (files : List SourceFile) (moduleFile : String) :
    moduleIds (aggregate rootPaths files cs).tree moduleFile =
      moduleIds (aggregate rootPaths files ds).tree moduleFile := by
  have ht := aggregate_built rootPaths files cs
  have hu := aggregate_built rootPaths files ds
  have hsize := h.size_eq files
  rw [CodeAtlas.moduleIds_eq ht.linked, CodeAtlas.moduleIds_eq hu.linked, ← hsize]
  apply List.map_congr_left
  intro i hi
  have hlt := List.mem_range.1 hi
  have houtline := h.outline_get files hlt
  have hid : ((aggregate rootPaths files cs).tree.get i).id =
      ((aggregate rootPaths files ds).tree.get i).id := congrArg (fun n => n.id) houtline
  have hpath : ((aggregate rootPaths files cs).tree.get i).path =
      ((aggregate rootPaths files ds).tree.get i).path := congrArg (fun n => n.path) houtline
  rw [ht.hasContent hcs hlt, hu.hasContent hds (hsize ▸ hlt), hid]
  simp only [ModuleNode.displayName, ModuleNode.documentPath, ModuleNode.relativeDir,
    ModuleNode.pathNames, hpath]

end Modules

/-- What stays and what is new when a class comes into a tree in which its file has `n` classes. -/
structure IdsKept (old new : ModuleTree) (moduleFile : String) (c : ClassInfo)
    (first last : List (ClassInfo × String)) (module file n : Nat) : Prop where
  modules_eq : moduleIds new moduleFile = moduleIds old moduleFile
  classes_old : classIds old moduleFile = first ++ last
  classes_new : classIds new moduleFile = first ++ (c, IdSupply.classText module file n) :: last
  /-- The number of the module is that in the id of its node. -/
  owner : c ∈ (new.get module).classes ∧
    ∃ path doc, (IdSupply.moduleText module, module, path, doc) ∈ moduleIds new moduleFile
  /-- The number of the file is that in the ids of its other classes. -/
  file_ids : ∀ e ∈ first ++ last, e.1.file.same c.file = true →
    ∃ k < n, e.2 = IdSupply.classText module file k
  fresh : ∀ node ∈ (DiagramModel.build old moduleFile .empty).1.nodes.toList,
    node.id ≠ IdSupply.classText module file n

/-- What becomes of the ids when the first class of a file comes into a module with classes. -/
structure IdsMoved (roots : List ModuleRoot) (old new : ModuleTree) (moduleFile : String)
    (c : ClassInfo) (first : List (ClassInfo × String)) (mid : List (ClassInfo × Nat × Nat))
    (last : List (ClassInfo × String)) (module file : Nat) : Prop where
  classes_old : classIds old moduleFile = first ++ mid.map (classEntry module) ++ last
  classes_new : classIds new moduleFile = first ++ (c, IdSupply.classText module file 0) ::
    mid.map (fun e => classEntry module (e.1, e.2.1 + 1, e.2.2)) ++ last
  moved : ∀ e ∈ mid, classKey roots e.1 = classKey roots c ∧ c.cmpFile e.1 = .lt
  kept : ∀ e ∈ first ++ last, classKey roots e.1 = classKey roots c → e.1.cmpFile c = .lt

def classA : ClassInfo := ⟨"A", ⟨"/r/a.py"⟩, 1, 0, 1, 1⟩

def classB : ClassInfo := ⟨"B", ⟨"/r/b.py"⟩, 1, 0, 1, 1⟩

def classC : ClassInfo := ⟨"C", ⟨"/r/a.py"⟩, 1, 0, 5, 5⟩

section Insert
variable (rootPaths : List Path) (files : List SourceFile) (before after : List ClassInfo)
  (c : ClassInfo) (moduleFile : String)

/-- A class that comes after all others of its file changes no id. -/
theorem ids_append (hfile : ∃ d ∈ before ++ after, d.file.same c.file = true)
    (hline : ∀ d ∈ before ++ after, d.file.same c.file = true → d.startLine < c.startLine) :
    ∃ first last module file, IdsKept (aggregate rootPaths files (before ++ after)).tree
      (aggregate rootPaths files (before ++ c :: after)).tree moduleFile c first last module file
      ((before ++ after).countP fun d => d.file.same c.file) := by
  have hbuilt := aggregate_built rootPaths files (before ++ after)
  have hbuilt' := aggregate_built rootPaths files (before ++ c :: after)
  obtain ⟨b, hb, hbc⟩ := hfile
  have hcomponents := Path.same_iff.1 hbc
  have hnames : SameNames (ModuleRoot.ofPaths rootPaths) (before ++ c :: after)
      (before ++ after) := exists_insert_iff ⟨b, hb, Placement.names_congr hcomponents⟩
  obtain ⟨m, low, high, hmore⟩ := exists_oneMore files ⟨b, hb, classKey_congr hcomponents⟩
  obtain ⟨outerFirst, outerLast, hold, hnew, hothers⟩ :=
    hmore.classIds_split hbuilt hbuilt' moduleFile
  obtain ⟨first, last, f, hcounted, hcounted', hin⟩ :=
    hmore.exists_counted_append hbuilt ⟨b, hb, hbc⟩ hline
  have hids : ∀ x ∈ first ++ last, x.1.file.same c.file = true →
      ∃ k < (before ++ after).countP (fun d => d.file.same c.file),
        (classEntry m x).2 = IdSupply.classText m f k := by
    intro x hx hsame
    obtain ⟨hf, hlt⟩ := hin x hx
    have hxf := hf (Path.same_iff.1 hsame)
    refine ⟨x.2.2, hlt hxf, ?_⟩
    rw [classEntry, hxf]
  refine ⟨outerFirst ++ first.map (classEntry m), last.map (classEntry m) ++ outerLast, m, f, ?_⟩
  constructor
  · exact hnames.moduleIds_eq (by simp) (List.ne_nil_of_mem hb) files moduleFile
  · rw [hold, classEntries, hcounted]
    simp
  · rw [hnew, classEntries, hcounted']
    simp [classEntry]
  · constructor
    · rw [hmore.classes_new]
      exact List.mem_append_right low List.mem_cons_self
    · exact exists_mem_moduleIds hbuilt'.linked moduleFile (hmore.size_eq ▸ hmore.lt_size)
  · intro e he hsame
    rw [List.mem_append, List.mem_append, List.mem_append] at he
    rcases he with (he | he) | (he | he)
    -- The classes of a file are in one module, so those of other modules are of other files.
    · exact absurd (classKey_congr (Path.same_iff.1 hsame))
        (hothers e (List.mem_append_left outerLast he))
    · obtain ⟨x, hx, rfl⟩ := List.mem_map.1 he
      exact hids x (List.mem_append_left last hx) hsame
    · obtain ⟨x, hx, rfl⟩ := List.mem_map.1 he
      exact hids x (List.mem_append_right first hx) hsame
    · exact absurd (classKey_congr (Path.same_iff.1 hsame))
        (hothers e (List.mem_append_right outerFirst he))
  · intro node hnode hid
    obtain ⟨d, hd⟩ := exists_of_id_eq hbuilt.linked moduleFile hnode hid
    rw [hmore.classes_old, hcounted] at hd
    exact absurd ((hin _ hd).2 rfl) (Nat.lt_irrefl _)

theorem ids_append_twoFiles :
    (∃ d ∈ [classB, classA], d.file.same classC.file = true) ∧
    (∀ d ∈ [classB, classA], d.file.same classC.file = true → d.startLine < classC.startLine) ∧
    ∃ first last module file, IdsKept (aggregate [⟨"/r"⟩] [] [classB, classA]).tree
      (aggregate [⟨"/r"⟩] [] [classB, classC, classA]).tree "README.md" classC first last module
      file 1 := by
  have hfile : ∃ d ∈ [classB, classA], d.file.same classC.file = true := by decide +kernel
  have hline : ∀ d ∈ [classB, classA], d.file.same classC.file = true →
      d.startLine < classC.startLine := by decide +kernel
  have hcount : ([classB, classA].countP fun d => d.file.same classC.file) = 1 := by
    decide +kernel
  have hkept := ids_append [⟨"/r"⟩] [] [classB] [classA] classC "README.md" hfile hline
  rw [List.singleton_append, hcount] at hkept
  exact ⟨hfile, hline, hkept⟩

/-- The first class of a file takes the number of the file behind it. -/
theorem ids_newFile
    (hkey : ∃ d ∈ before ++ after,
      classKey (ModuleRoot.ofPaths rootPaths) d = classKey (ModuleRoot.ofPaths rootPaths) c)
    (hnew : ∀ d ∈ before ++ after, d.file.same c.file = false) :
    ∃ first mid last module file, IdsMoved (ModuleRoot.ofPaths rootPaths)
      (aggregate rootPaths files (before ++ after)).tree
      (aggregate rootPaths files (before ++ c :: after)).tree moduleFile c first mid last module
      file := by
  have hbuilt := aggregate_built rootPaths files (before ++ after)
  have hbuilt' := aggregate_built rootPaths files (before ++ c :: after)
  obtain ⟨m, low, high, hmore⟩ := exists_oneMore files hkey
  obtain ⟨outerFirst, outerLast, hold, hnew', hothers⟩ :=
    hmore.classIds_split hbuilt hbuilt' moduleFile
  obtain ⟨first, last, f, hcounted, hcounted', hfirst, hlast⟩ :=
    hmore.exists_counted_newFile hbuilt hnew
  refine ⟨outerFirst ++ first.map (classEntry m), last, outerLast, m, f, ?_, ?_, hlast, ?_⟩
  · rw [hold, classEntries, hcounted]
    simp
  · rw [hnew', classEntries, hcounted']
    simp [classEntry]
  · intro e he hec
    rw [List.append_assoc, List.mem_append, List.mem_append] at he
    rcases he with he | he | he
    · exact absurd hec (hothers e (List.mem_append_left outerLast he))
    · obtain ⟨x, hx, rfl⟩ := List.mem_map.1 he
      exact hfirst x hx
    · exact absurd hec (hothers e (List.mem_append_right outerFirst he))

theorem ids_newFile_twoFiles :
    (∃ d ∈ [classB], classKey (ModuleRoot.ofPaths [⟨"/r"⟩]) d =
      classKey (ModuleRoot.ofPaths [⟨"/r"⟩]) classA) ∧
    (∀ d ∈ [classB], d.file.same classA.file = false) ∧
    ∃ first mid last module file, IdsMoved (ModuleRoot.ofPaths [⟨"/r"⟩])
      (aggregate [⟨"/r"⟩] [] [classB]).tree (aggregate [⟨"/r"⟩] [] [classA, classB]).tree
      "README.md" classA first mid last module file := by
  have hkey : ∃ d ∈ [classB], classKey (ModuleRoot.ofPaths [⟨"/r"⟩]) d =
      classKey (ModuleRoot.ofPaths [⟨"/r"⟩]) classA := by decide +kernel
  have hnew : ∀ d ∈ [classB], d.file.same classA.file = false := by decide +kernel
  have hmoved := ids_newFile [⟨"/r"⟩] [] [] [classB] classA "README.md" hkey hnew
  exact ⟨hkey, hnew, hmoved⟩

end Insert

/-- Classes of one key that are in order are the classes of the only module. -/
theorem get_classes_of_moduleKeys_eq {rootPaths : List Path} {classes : List ClassInfo}
    {k : ModuleKey} (files : List SourceFile)
    (hkeys : moduleKeys (ModuleRoot.ofPaths rootPaths) classes = [k])
    (hclasses : ∀ c ∈ classes, classKey (ModuleRoot.ofPaths rootPaths) c = k)
    (hsorted : classes.Pairwise fun a b => (a.cmp b).isLE = true) :
    (aggregate rootPaths files classes).tree.size = 1 ∧
      ((aggregate rootPaths files classes).tree.get 0).classes = classes := by
  have h := aggregate_built rootPaths files classes
  have hsize : (aggregate rootPaths files classes).tree.size = 1 := by
    have hlength := congrArg List.length h.keys_eq
    rwa [hkeys, List.length_map, ModuleTree.length_toList] at hlength
  have hkey : ((aggregate rootPaths files classes).tree.get 0).key = k := by
    have hmem := h.get_key_mem (i := 0) (by omega)
    rw [hkeys] at hmem
    exact List.mem_singleton.1 hmem
  have hall : classes.filter (fun c => classKey (ModuleRoot.ofPaths rootPaths) c = k) = classes := by
    rw [List.filter_eq_self]
    intro c hc
    exact decide_eq_true (hclasses c hc)
  refine ⟨hsize, ?_⟩
  rw [h.get_classes (by omega), hkey, hall, sortClasses_eq, List.mergeSort_of_pairwise hsorted]

/-- In a tree of one module the ids follow the order of the files and lines. -/
theorem classIds_of_moduleKeys_eq {rootPaths : List Path} {classes : List ClassInfo}
    {k : ModuleKey} (files : List SourceFile) (moduleFile : String)
    (hkeys : moduleKeys (ModuleRoot.ofPaths rootPaths) classes = [k])
    (hclasses : ∀ c ∈ classes, classKey (ModuleRoot.ofPaths rootPaths) c = k)
    (hsorted : classes.Pairwise fun a b => (a.cmp b).isLE = true) :
    classIds (aggregate rootPaths files classes).tree moduleFile = classEntries 0 classes := by
  have h := aggregate_built rootPaths files classes
  obtain ⟨hsize, hget⟩ := get_classes_of_moduleKeys_eq files hkeys hclasses hsorted
  rw [classIds_eq h.linked, hsize, List.range_one, List.flatMap_singleton, hget]

/-- A class in `/r/a.py` moves the file number of the class in `/r/b.py`. -/
theorem not_forall_newFile_mem_classIds :
    ¬ ∀ (rootPaths : List Path) (files : List SourceFile) (before after : List ClassInfo)
      (c : ClassInfo) (moduleFile : String),
      (∃ d ∈ before ++ after,
        classKey (ModuleRoot.ofPaths rootPaths) d = classKey (ModuleRoot.ofPaths rootPaths) c) →
      (∀ d ∈ before ++ after, d.file.same c.file = false) →
      ∀ e ∈ classIds (aggregate rootPaths files (before ++ after)).tree moduleFile,
        e ∈ classIds (aggregate rootPaths files (before ++ c :: after)).tree moduleFile := by
  intro h
  have hkept := h [⟨"/r"⟩] [] [] [classB] classA "README.md" (by decide +kernel)
    (by decide +kernel)
  rw [List.nil_append, List.nil_append,
    classIds_of_moduleKeys_eq [] _ (k := ["r"]) (by decide +kernel) (by decide +kernel)
      (by decide +kernel),
    classIds_of_moduleKeys_eq [] _ (k := ["r"]) (by decide +kernel) (by decide +kernel)
      (by decide +kernel)] at hkept
  exact absurd hkept (by decide +kernel)

end CodeAtlas
