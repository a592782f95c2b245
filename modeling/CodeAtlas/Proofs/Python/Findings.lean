import CodeAtlas.Proofs.Python.Nodes

/-!
# What is found in a syntax tree

The walk over a tree comes to every node that is not below a broken one, and tells of each class
definition and of each broken node among them, in their order: a class, if there is no fault in the
definition and it has a name, and a warning otherwise.
-/
namespace CodeAtlas.Python

def nodeFinding? (file : Path) (lines : Array (List Char)) (t : SyntaxTree) : Option Finding :=
  if t.isBroken then some (.warning (.parse file t.label.span.1 errorMessage))
  else if t.kind = .classDefinition then some (classFinding file lines t)
  else none

section Findings
variable {file : Path} {lines : Array (List Char)}

theorem findingsOf_eq (cs : List SyntaxTree) :
    findingsOf file lines cs = cs.flatMap (findings file lines) := by
  induction cs with
  | nil => rfl
  | cons c cs ih => rw [findingsOf, ih, List.flatMap_cons]

theorem findings_of_isBroken {t : SyntaxTree} (h : t.isBroken = true) :
    findings file lines t = [.warning (.parse file t.label.span.1 errorMessage)] := by
  cases t with
  | node label children =>
    rw [findings]
    exact if_pos h

theorem findings_of_not_isBroken {t : SyntaxTree} (h : t.isBroken = false) :
    findings file lines t =
      (nodeFinding? file lines t).toList ++ t.children.flatMap (findings file lines) := by
  cases t with
  | node label children =>
    have hkind : ¬ (label.kind = .error || label.kind = .missing) = true :=
      Bool.eq_false_iff.1 h
    rw [findings, if_neg hkind, nodeFinding?, h, ← findingsOf_eq]
    by_cases hclass : label.kind = .classDefinition
    · simp [hclass, SyntaxTree.kind, SyntaxTree.label, SyntaxTree.children]
    · simp [hclass, SyntaxTree.kind, SyntaxTree.label, SyntaxTree.children]

theorem findings_eq (t : SyntaxTree) :
    findings file lines t = t.visited.filterMap fun n => nodeFinding? file lines n.tree := by
  induction t using SyntaxTree.induction_on with
  | h label children ih =>
    cases hbroken : (SyntaxTree.node label children).isBroken with
    | true =>
      rw [findings_of_isBroken hbroken, SyntaxTree.visited_of_isBroken hbroken]
      simp [nodeFinding?, hbroken]
    | false =>
      -- The children are told of in turn, each with its number in the paths.
      have hchildren : children.flatMap (findings file lines) =
          children.zipIdx.flatMap fun x => findings file lines x.1 := by
        rw [← List.flatMap_map Prod.fst, List.zipIdx_map_fst]
      have hbelow : children.zipIdx.flatMap (fun x => findings file lines x.1) =
          (children.zipIdx.flatMap fun x => x.1.visited.map
            (SyntaxTree.Located.under x.2)).filterMap
              fun n : SyntaxTree.Located => nodeFinding? file lines n.tree := by
        rw [List.filterMap_flatMap]
        apply List.flatMap_congr
        rintro ⟨c, i⟩ hc
        rw [ih c (List.mem_of_getElem? (SyntaxTree.mem_zipIdx.1 hc)), List.filterMap_map]
        rfl
      rw [findings_of_not_isBroken hbroken, SyntaxTree.visited_of_not_isBroken hbroken,
        List.filterMap_cons, ← hbelow, ← hchildren, SyntaxTree.children]
      cases nodeFinding? file lines (.node label children) <;> rfl

/-! ### Classes and warnings -/

theorem class?_isSome_iff {t : SyntaxTree} :
    (classFinding file lines t).class?.isSome = true ↔
      t.hasError = false ∧ t.name?.isSome = true := by
  rw [classFinding]
  cases t.hasError with
  | true => simp [Finding.class?]
  | false => cases t.name? <;> simp [Finding.class?]

theorem length_classes_add_warnings {α : Type} (f : α → Finding) (xs : List α) :
    (xs.filterMap fun x => (f x).class?).length + (xs.filterMap fun x => (f x).warning?).length =
      xs.length := by
  induction xs with
  | nil => rfl
  | cons x xs ih =>
    rw [List.filterMap_cons, List.filterMap_cons, List.length_cons, ← ih]
    cases f x <;> simp only [Finding.class?, Finding.warning?, List.length_cons] <;> omega

theorem prefix_brokenClassMessage (name : Option String) :
    "syntax error in class ".toList <+: (brokenClassMessage name).toList := by
  have happend : brokenClassMessage name =
      "syntax error in class " ++ (name.getD "<unnamed>" ++ "; class skipped") :=
    String.append_assoc
  exact ⟨_, by rw [happend, String.toList_append]⟩

theorem brokenClassMessage_ne (name : Option String) : brokenClassMessage name ≠ errorMessage := by
  have hnot : ¬ "syntax error in class ".toList <+: errorMessage.toList := by decide +kernel
  intro h
  have hprefix := prefix_brokenClassMessage name
  rw [h] at hprefix
  exact hnot hprefix

/-- What is told of a class definition is not told of a broken node. -/
theorem message_ne_of_warning? {t : SyntaxTree} {w : Warning}
    (h : (classFinding file lines t).warning? = some w) : w.message ≠ errorMessage := by
  rw [classFinding] at h
  cases he : t.hasError with
  | true =>
    simp only [he, if_true, Finding.warning?, Option.some.injEq] at h
    rw [← h]
    exact brokenClassMessage_ne t.name?
  | false =>
    cases hn : t.name? with
    | none =>
      simp only [he, hn, Bool.false_eq_true, if_false, Finding.warning?, Option.some.injEq] at h
      rw [← h]
      exact show unnamedMessage ≠ errorMessage by decide
    | some name => simp [he, hn, Finding.warning?] at h

/-- The message of a warning tells whether it is about a class definition or a broken node. -/
theorem nodeFinding?_warning? (t : SyntaxTree) :
    (((nodeFinding? file lines t).bind fun f => f.warning?.filter (·.message ≠ errorMessage)) =
      if t.kind = .classDefinition ∧ t.isBroken = false then
        (classFinding file lines t).warning? else none) ∧
    ((nodeFinding? file lines t).bind fun f => f.warning?.filter (·.message = errorMessage)) =
      if t.isBroken then some (.parse file t.label.span.1 errorMessage) else none := by
  cases hbroken : t.isBroken with
  | true => simp [nodeFinding?, hbroken, Finding.warning?, Warning.parse]
  | false =>
    by_cases hclass : t.kind = .classDefinition
    · cases hw : (classFinding file lines t).warning? with
      | none => simp [nodeFinding?, hbroken, hclass, hw]
      | some w =>
        have hne := message_ne_of_warning? hw
        simp [nodeFinding?, hbroken, hclass, hw, hne]
    · simp [nodeFinding?, hbroken, hclass]

end Findings

/-! ### The nodes that are told of -/

namespace SyntaxTree

def isClass (t : SyntaxTree) : Bool := t.kind = .classDefinition

/-- The class definitions that are neither broken nor below a broken node. -/
def definitions (t : SyntaxTree) : List Located :=
  t.nodes.filter fun n => n.tree.isClass && !n.tree.isBroken && !t.passesFault n.path

def outermostFaults (t : SyntaxTree) : List Located :=
  t.nodes.filter fun n => n.tree.isBroken && !t.passesFault n.path

theorem definitions_eq (t : SyntaxTree) :
    t.definitions = t.visited.filter fun n => n.tree.isClass && !n.tree.isBroken := by
  rw [definitions, visited, List.filter_filter]

theorem outermostFaults_eq (t : SyntaxTree) :
    t.outermostFaults = t.visited.filter fun n => n.tree.isBroken := by
  rw [outermostFaults, visited, List.filter_filter]

theorem hasError_eq_false_iff {t : SyntaxTree} {n : Located} (h : n ∈ t.nodes) :
    n.tree.hasError = false ↔
      ∀ m ∈ t.nodes, n.path <+: m.path → m.tree.isBroken = false := by
  rw [← Bool.not_eq_true, hasError_iff]
  constructor
  · rintro hnone ⟨-, s⟩ hm ⟨more, rfl⟩
    by_contra hbroken
    exact hnone ⟨⟨more, s⟩, (mem_nodes_append h).1 hm, by simpa using hbroken⟩
  · rintro hall ⟨m, hm, hbroken⟩
    have hwhole := hall _ ((mem_nodes_append h).2 hm) (List.prefix_append n.path m.path)
    exact Bool.eq_false_iff.1 hwhole hbroken

end SyntaxTree

/-- Whether an analysis tells of each class definition and of each outermost fault of a tree once,
in the order of the nodes. -/
structure Accounted (file : Path) (lines : Array (List Char)) (t : SyntaxTree) (a : Analysis) :
    Prop where
  nodes : ∀ n, n ∈ t.nodes ↔ t.at? n.path = some n.tree
  preorder : t.nodes.Pairwise fun n m => n.path < m.path
  classes : a.classes =
    t.definitions.filterMap fun n => (classFinding file lines n.tree).class?
  isClass : ∀ n ∈ t.definitions, (classFinding file lines n.tree).class?.isSome = true ↔
    (∀ m ∈ t.nodes, n.path <+: m.path → m.tree.isBroken = false) ∧ n.tree.name?.isSome = true
  warned : a.warnings.filter (·.message ≠ errorMessage) =
    t.definitions.filterMap fun n => (classFinding file lines n.tree).warning?
  count : a.classes.length + (a.warnings.filter (·.message ≠ errorMessage)).length =
    t.definitions.length
  faults : a.warnings.filter (·.message = errorMessage) =
    t.outermostFaults.map fun n => .parse file n.tree.label.span.1 errorMessage

section Account
variable (file : Path) (lines : Array (List Char)) (t : SyntaxTree)

theorem classes_analyzeTree : (analyzeTree file lines t).classes =
    t.definitions.filterMap fun n => (classFinding file lines n.tree).class? := by
  rw [analyzeTree, findings_eq, SyntaxTree.definitions_eq, List.filterMap_filterMap,
    List.filterMap_filter]
  apply List.filterMap_congr
  intro n _
  cases hbroken : n.tree.isBroken <;>
    by_cases hclass : n.tree.kind = .classDefinition <;>
    simp [nodeFinding?, SyntaxTree.isClass, hbroken, hclass, Finding.class?]

theorem warned_analyzeTree :
    (analyzeTree file lines t).warnings.filter (·.message ≠ errorMessage) =
      t.definitions.filterMap fun n => (classFinding file lines n.tree).warning? := by
  rw [analyzeTree, findings_eq, SyntaxTree.definitions_eq, List.filter_filterMap,
    List.filterMap_filterMap, List.filterMap_filter]
  apply List.filterMap_congr
  intro n _
  rw [(nodeFinding?_warning? n.tree).1]
  simp [SyntaxTree.isClass]

theorem faults_analyzeTree :
    (analyzeTree file lines t).warnings.filter (·.message = errorMessage) =
      t.outermostFaults.map fun n => .parse file n.tree.label.span.1 errorMessage := by
  rw [analyzeTree, findings_eq, SyntaxTree.outermostFaults_eq, List.filter_filterMap,
    List.filterMap_filterMap, ← List.filterMap_eq_map, List.filterMap_filter]
  apply List.filterMap_congr
  intro n _
  exact (nodeFinding?_warning? n.tree).2

theorem analyzeTree_accounted : Accounted file lines t (analyzeTree file lines t) where
  nodes := fun n => SyntaxTree.mem_nodes
  preorder := t.nodes_ascending
  classes := classes_analyzeTree file lines t
  isClass := by
    intro n hn
    rw [class?_isSome_iff, SyntaxTree.hasError_eq_false_iff (List.mem_of_mem_filter hn)]
  warned := warned_analyzeTree file lines t
  count := by
    rw [warned_analyzeTree, classes_analyzeTree]
    exact length_classes_add_warnings (fun n => classFinding file lines n.tree) t.definitions
  faults := faults_analyzeTree file lines t

end Account
end CodeAtlas.Python
