import Mathlib.Data.List.Basic
import Mathlib.Data.List.Lex
import CodeAtlas.Python.Classes

namespace CodeAtlas.Python.SyntaxTree

/-- What holds of a node whenever it holds of its children holds of all trees. -/
theorem induction_on {motive : SyntaxTree → Prop}
    (h : ∀ label children, (∀ c ∈ children, motive c) → motive (node label children)) :
    ∀ t, motive t
  | node label children => h label children fun c hc => by
    have := List.sizeOf_lt_of_mem hc
    exact induction_on h c

def at? : SyntaxTree → List Nat → Option SyntaxTree
  | t, [] => some t
  | t, i :: path => t.children[i]?.bind fun c => c.at? path

@[simp]
theorem at?_nil (t : SyntaxTree) : t.at? [] = some t := by cases t; rfl

theorem at?_cons {t s : SyntaxTree} {i : Nat} {path : List Nat} :
    t.at? (i :: path) = some s ↔ ∃ c, t.children[i]? = some c ∧ c.at? path = some s := by
  cases t
  simp [at?, Option.bind_eq_some_iff]

theorem at?_append (t : SyntaxTree) (path more : List Nat) :
    t.at? (path ++ more) = (t.at? path).bind (·.at? more) := by
  induction path generalizing t with
  | nil => simp
  | cons i path ih =>
    rw [List.cons_append, at?, at?]
    cases t.children[i]? with
    | none => rfl
    | some c => exact ih c

/-! ### The list of nodes -/

structure Located where
  path : List Nat
  tree : SyntaxTree
  deriving Inhabited

def Located.under (i : Nat) (n : Located) : Located := ⟨i :: n.path, n.tree⟩

mutual
/-- The nodes of a tree, each before those below it. -/
def nodes : SyntaxTree → List Located
  | node label children => ⟨[], node label children⟩ :: nodesFrom 0 children

def nodesFrom (i : Nat) : List SyntaxTree → List Located
  | [] => []
  | c :: cs => (nodes c).map (Located.under i) ++ nodesFrom (i + 1) cs
end

theorem nodesFrom_eq (i : Nat) (cs : List SyntaxTree) :
    nodesFrom i cs = (cs.zipIdx i).flatMap fun x => x.1.nodes.map (Located.under x.2) := by
  induction cs generalizing i with
  | nil => rfl
  | cons c cs ih => rw [nodesFrom, ih, List.zipIdx_cons, List.flatMap_cons]

theorem nodes_node (label : NodeLabel) (children : List SyntaxTree) :
    (node label children).nodes = ⟨[], node label children⟩ ::
      children.zipIdx.flatMap fun x => x.1.nodes.map (Located.under x.2) := by
  rw [nodes, nodesFrom_eq]

theorem mem_zipIdx {cs : List SyntaxTree} {c : SyntaxTree} {i : Nat} :
    (c, i) ∈ cs.zipIdx ↔ cs[i]? = some c := by
  simp [List.mem_zipIdx_iff_getElem?]

theorem mem_nodes {t : SyntaxTree} {n : Located} : n ∈ t.nodes ↔ t.at? n.path = some n.tree := by
  obtain ⟨path, s⟩ := n
  induction t using induction_on generalizing path s with
  | h label children ih =>
    rw [nodes_node, List.mem_cons]
    cases path with
    | nil => simp [Located.under, eq_comm]
    | cons i path =>
      simp only [Located.mk.injEq, reduceCtorEq, false_and, false_or, List.mem_flatMap,
        List.mem_map, at?_cons, Prod.exists]
      constructor
      · rintro ⟨c, k, hc, ⟨path, s⟩, hn, he⟩
        obtain ⟨hpath, rfl⟩ := Located.mk.inj he
        obtain ⟨rfl, rfl⟩ := List.cons_eq_cons.1 hpath
        have hc := mem_zipIdx.1 hc
        exact ⟨c, hc, (ih c (List.mem_of_getElem? hc) _ _).1 hn⟩
      · rintro ⟨c, hc, hs⟩
        exact ⟨c, i, mem_zipIdx.2 hc, ⟨path, s⟩,
          (ih c (List.mem_of_getElem? hc) _ _).2 hs, rfl⟩

theorem mem_nodes_child {t c : SyntaxTree} {i : Nat} (h : t.children[i]? = some c) :
    ⟨[i], c⟩ ∈ t.nodes :=
  mem_nodes.2 (at?_cons.2 ⟨c, h, at?_nil c⟩)

theorem mem_nodes_root (t : SyntaxTree) : ⟨[], t⟩ ∈ t.nodes := mem_nodes.2 (at?_nil t)

/-- The nodes at and below a node are those to which its path leads on. -/
theorem mem_nodes_append {t : SyntaxTree} {n : Located} (h : n ∈ t.nodes) {more : List Nat}
    {s : SyntaxTree} : ⟨n.path ++ more, s⟩ ∈ t.nodes ↔ ⟨more, s⟩ ∈ n.tree.nodes := by
  rw [mem_nodes, mem_nodes, at?_append, mem_nodes.1 h, Option.bind_some]

theorem eq_of_path_eq {t : SyntaxTree} {n m : Located} (hn : n ∈ t.nodes) (hm : m ∈ t.nodes)
    (h : n.path = m.path) : n = m := by
  have hat := mem_nodes.1 hn
  rw [h, mem_nodes.1 hm] at hat
  cases n
  cases m
  simp_all

/-- Nodes are listed by their paths, those of earlier children first. -/
theorem nodes_ascending (t : SyntaxTree) : t.nodes.Pairwise fun n m => n.path < m.path := by
  induction t using induction_on with
  | h label children ih =>
    rw [nodes_node, List.pairwise_cons, List.pairwise_flatMap]
    refine ⟨fun n hn => ?_, fun x hx => ?_, ?_⟩
    · simp only [List.mem_flatMap, List.mem_map] at hn
      obtain ⟨x, -, m, -, rfl⟩ := hn
      exact List.nil_lt_cons _ _
    · have hmem := List.mem_of_getElem? (mem_zipIdx.1 hx)
      rw [List.pairwise_map]
      exact (ih x.1 hmem).imp fun hlt => List.cons_lt_cons_self.2 hlt
    · have hindex : children.zipIdx.Pairwise fun x y => x.2 < y.2 := by
        rw [← List.pairwise_map (f := Prod.snd), List.zipIdx_map_snd]
        exact List.pairwise_lt_range'
      refine hindex.imp fun {x y} hlt n hn m hm => ?_
      obtain ⟨n, -, rfl⟩ := List.mem_map.1 hn
      obtain ⟨m, -, rfl⟩ := List.mem_map.1 hm
      exact List.cons_lt_cons_iff.2 (Or.inl hlt)

theorem nodup_paths (t : SyntaxTree) : (t.nodes.map (·.path)).Nodup := by
  rw [List.Nodup, List.pairwise_map]
  exact t.nodes_ascending.imp fun hlt => ne_of_lt hlt

/-! ### Faults -/

theorem anyError_eq (cs : List SyntaxTree) : anyError cs = cs.any hasError := by
  induction cs with
  | nil => rfl
  | cons c cs ih => rw [anyError, ih, List.any_cons]

theorem hasError_iff {t : SyntaxTree} :
    t.hasError = true ↔ ∃ n ∈ t.nodes, n.tree.isBroken = true := by
  induction t using induction_on with
  | h label children ih =>
    have hhere : (node label children).hasError =
        ((node label children).isBroken || children.any hasError) := by
      rw [hasError, anyError_eq]
      rfl
    rw [hhere, nodes_node, Bool.or_eq_true, List.exists_mem_cons_iff, List.any_eq_true]
    apply or_congr Iff.rfl
    simp only [List.mem_flatMap, List.mem_map]
    constructor
    · rintro ⟨c, hc, herror⟩
      obtain ⟨n, hn, hbroken⟩ := (ih c hc).1 herror
      obtain ⟨i, hi⟩ := List.mem_iff_getElem?.1 hc
      exact ⟨n.under i, ⟨(c, i), mem_zipIdx.2 hi, n, hn, rfl⟩, hbroken⟩
    · rintro ⟨-, ⟨⟨c, i⟩, hc, n, hn, rfl⟩, hbroken⟩
      have hmem := List.mem_of_getElem? (mem_zipIdx.1 hc)
      exact ⟨c, hmem, (ih c hmem).2 ⟨n, hn, hbroken⟩⟩

def passesFault (t : SyntaxTree) (path : List Nat) : Bool :=
  (List.range path.length).any fun k => (t.at? (path.take k)).any isBroken

theorem passesFault_nil (t : SyntaxTree) : t.passesFault [] = false := rfl

theorem passesFault_cons {t c : SyntaxTree} {i : Nat} (hc : t.children[i]? = some c)
    (path : List Nat) : t.passesFault (i :: path) = (t.isBroken || c.passesFault path) := by
  rw [passesFault, List.length_cons, List.range_succ_eq_map, List.any_cons, List.any_map]
  simp [passesFault, Function.comp_def, at?, hc]

def visited (t : SyntaxTree) : List Located := t.nodes.filter fun n => !t.passesFault n.path

theorem visited_of_isBroken {t : SyntaxTree} (h : t.isBroken = true) : t.visited = [⟨[], t⟩] := by
  cases t with
  | node label children =>
    rw [visited, nodes_node, List.filter_cons_of_pos (by simp [passesFault_nil]),
      List.cons_inj_right, List.filter_eq_nil_iff]
    intro n hn
    simp only [List.mem_flatMap, List.mem_map] at hn
    obtain ⟨⟨c, i⟩, hc, n, -, rfl⟩ := hn
    have hc : (node label children).children[i]? = some c := mem_zipIdx.1 hc
    simp [Located.under, passesFault_cons hc, h]

theorem visited_of_not_isBroken {label : NodeLabel} {children : List SyntaxTree}
    (h : (node label children).isBroken = false) :
    (node label children).visited = ⟨[], node label children⟩ ::
      children.zipIdx.flatMap fun x => x.1.visited.map (Located.under x.2) := by
  rw [visited, nodes_node, List.filter_cons_of_pos (by simp [passesFault_nil]),
    List.cons_inj_right, List.filter_flatMap]
  apply List.flatMap_congr
  rintro ⟨c, i⟩ hc
  have hc : (node label children).children[i]? = some c := mem_zipIdx.1 hc
  rw [List.filter_map, visited]
  congr 1
  apply List.filter_congr
  intro n _
  simp [Located.under, passesFault_cons hc, h]

end CodeAtlas.Python.SyntaxTree
