import Mathlib.Data.List.MinMax
import Mathlib.Data.List.Nodup
import CodeAtlas.Proofs.Python.Findings
import CodeAtlas.Proofs.Text.LineNumbers
import CodeAtlas.Proofs.Text.OneLine

/-!
# Lines of the innermost class

In a tree without faults whose class definitions are either nested or share no line, each line that
a class definition takes up is counted for exactly one of them: the innermost one. A definition
without a name is no class, but its lines are left out of the classes around it all the same.
-/
namespace CodeAtlas.Python

namespace SyntaxTree

def covers (t : SyntaxTree) (k : Nat) : Bool := t.label.span.1 ≤ k && k ≤ t.label.span.2

def innerSpans (t : SyntaxTree) : List LineSpan := ((t.child? .body).map nestedSpans).getD []

def owns (t : SyntaxTree) (k : Nat) : Bool := t.covers k && !inSpans t.innerSpans k

def classLoc (lines : Array (List Char)) (t : SyntaxTree) : Nat :=
  countLoc lines t.label.span.1 t.label.span.2 t.innerSpans

def Located.IsBelow (n m : Located) : Prop := m.path <+: n.path ∧ m.path ≠ n.path

instance (n m : Located) : Decidable (n.IsBelow m) := inferInstanceAs (Decidable (_ ∧ _))

def Located.body? (n : Located) : Option Located :=
  (n.tree.children.zipIdx.find? fun x => x.1.label.role = .body).map fun x =>
    ⟨n.path ++ [x.2], x.1⟩

def Within (t : SyntaxTree) : Prop :=
  ∀ n ∈ t.nodes, ∀ c ∈ n.tree.children,
    n.tree.label.span.1 ≤ c.label.span.1 ∧ c.label.span.2 ≤ n.tree.label.span.2

instance (t : SyntaxTree) : Decidable t.Within :=
  inferInstanceAs (Decidable (∀ n ∈ t.nodes, ∀ c ∈ n.tree.children, _ ∧ _))

/-- Whether a tree has no fault and its class definitions are nested by their bodies or apart. -/
structure WellNested (t : SyntaxTree) : Prop where
  sound : t.hasError = false
  within : t.Within
  inBody : ∀ n ∈ t.nodes, ∀ m ∈ t.nodes, n.tree.isClass = true → m.tree.isClass = true →
    m.IsBelow n → ∃ b, n.body? = some b ∧ m.IsBelow b
  apart : ∀ n ∈ t.nodes, ∀ m ∈ t.nodes, n.tree.isClass = true → m.tree.isClass = true →
    ¬ n.path <+: m.path → ¬ m.path <+: n.path →
    ∀ k, ¬ (n.tree.covers k = true ∧ m.tree.covers k = true)

/-! ### Lines of the classes below a node -/

theorem spansOf_eq (cs : List SyntaxTree) :
    spansOf cs = cs.flatMap fun c => if c.isClass then [c.label.span] else c.nestedSpans := by
  induction cs with
  | nil => rfl
  | cons c cs ih =>
    obtain ⟨l, children⟩ := c
    have hclass : (node l children).isClass = decide (l.kind = .classDefinition) := rfl
    rw [spansOf, ih, List.flatMap_cons, hclass, label]
    simp only [decide_eq_true_eq]

theorem nestedSpans_eq (t : SyntaxTree) : t.nestedSpans = t.children.flatMap fun c =>
    if c.isClass then [c.label.span] else c.nestedSpans := by
  cases t
  rw [nestedSpans, spansOf_eq, children]

theorem exists_of_mem_nestedSpans {t : SyntaxTree} {span : LineSpan} (h : span ∈ t.nestedSpans) :
    ∃ n ∈ t.nodes, n.path ≠ [] ∧ n.tree.isClass = true ∧ n.tree.label.span = span := by
  induction t using induction_on with
  | h label children ih =>
    rw [nestedSpans_eq, List.mem_flatMap] at h
    obtain ⟨c, hc, hspan⟩ := h
    obtain ⟨i, hi⟩ := List.mem_iff_getElem?.1 hc
    have hmem : ⟨[i], c⟩ ∈ (node label children).nodes := mem_nodes_child hi
    split at hspan
    next hclass =>
      exact ⟨⟨[i], c⟩, hmem, by simp, hclass, (List.mem_singleton.1 hspan).symm⟩
    · obtain ⟨⟨path, s⟩, hn, -, hclass, hs⟩ := ih c hc hspan
      exact ⟨⟨[i] ++ path, s⟩, (mem_nodes_append hmem).2 hn, by simp, hclass, hs⟩

theorem Within.sub {t : SyntaxTree} (h : t.Within) {n : Located} (hn : n ∈ t.nodes) :
    n.tree.Within :=
  fun m hm => h ⟨n.path ++ m.path, m.tree⟩ ((mem_nodes_append hn).2 hm)

theorem Within.covers_of_at? {t s : SyntaxTree} (h : t.Within) {path : List Nat}
    (hs : t.at? path = some s) {k : Nat} (hk : s.covers k = true) : t.covers k = true := by
  induction path generalizing t with
  | nil =>
    obtain rfl : t = s := by simpa using hs
    exact hk
  | cons i path ih =>
    obtain ⟨c, hc, hs⟩ := at?_cons.1 hs
    have hcovers := ih (h.sub (mem_nodes_child hc)) hs
    have hspan := h _ t.mem_nodes_root c (List.mem_of_getElem? hc)
    simp only [covers, Bool.and_eq_true, decide_eq_true_eq] at hcovers hspan ⊢
    omega

/-- The lines that are left out are those of the class definitions below. -/
theorem Within.inSpans_of_below {t s : SyntaxTree} (h : t.Within) {path : List Nat}
    (hs : t.at? path = some s) (hne : path ≠ []) (hclass : s.isClass = true) {k : Nat}
    (hk : s.covers k = true) : inSpans t.nestedSpans k = true := by
  induction path generalizing t with
  | nil => exact absurd rfl hne
  | cons i path ih =>
    obtain ⟨c, hc, hs⟩ := at?_cons.1 hs
    have hwithin := h.sub (mem_nodes_child hc)
    rw [inSpans, nestedSpans_eq, List.any_flatMap, List.any_eq_true]
    refine ⟨c, List.mem_of_getElem? hc, ?_⟩
    by_cases hc : c.isClass = true
    · have hcovers := hwithin.covers_of_at? hs hk
      simpa [hc, covers] using hcovers
    · have hpath : path ≠ [] := by
        rintro rfl
        obtain rfl : c = s := by simpa using hs
        exact hc hclass
      rw [if_neg hc]
      exact ih hwithin hs hpath

/-! ### Lines of a class -/

theorem Located.exists_body {n : Located} {body : SyntaxTree}
    (h : n.tree.child? .body = some body) : ∃ b, n.body? = some b ∧ b.tree = body := by
  rw [child?, ← List.zipIdx_map_fst 0 n.tree.children, List.find?_map] at h
  obtain ⟨x, hx, rfl⟩ := Option.map_eq_some_iff.1 h
  exact ⟨⟨n.path ++ [x.2], x.1⟩, Option.map_eq_some_iff.2 ⟨x, hx, rfl⟩, rfl⟩

theorem Located.body?_spec {t : SyntaxTree} {n b : Located} (hn : n ∈ t.nodes)
    (h : n.body? = some b) :
    b ∈ t.nodes ∧ n.tree.child? .body = some b.tree ∧ ∃ i, b.path = n.path ++ [i] := by
  obtain ⟨⟨body, i⟩, hx, rfl⟩ := Option.map_eq_some_iff.1 h
  have hi := mem_zipIdx.1 (List.mem_of_find?_eq_some hx)
  refine ⟨(mem_nodes_append hn).2 (mem_nodes_child hi), ?_, i, rfl⟩
  rw [child?, ← List.zipIdx_map_fst 0 n.tree.children, List.find?_map]
  exact Option.map_eq_some_iff.2 ⟨_, hx, rfl⟩

/-- A line is left out of a class if and only if a class definition below it takes it up. -/
theorem WellNested.inSpans_innerSpans {t : SyntaxTree} (h : t.WellNested) {n : Located}
    (hn : n ∈ t.nodes) (hclass : n.tree.isClass = true) {k : Nat} :
    inSpans n.tree.innerSpans k = true ↔
      ∃ m ∈ t.nodes, m.IsBelow n ∧ m.tree.isClass = true ∧ m.tree.covers k = true := by
  constructor
  · intro hk
    rw [innerSpans] at hk
    cases hbody : n.tree.child? .body with
    | none => simp [hbody, inSpans] at hk
    | some body =>
      rw [hbody] at hk
      obtain ⟨span, hspan, hcovers⟩ := List.any_eq_true.1 hk
      obtain ⟨m, hm, hne, hclass, rfl⟩ := exists_of_mem_nestedSpans hspan
      obtain ⟨b, hb, rfl⟩ := Located.exists_body hbody
      obtain ⟨hbmem, -, i, hpath⟩ := Located.body?_spec hn hb
      refine ⟨⟨b.path ++ m.path, m.tree⟩, (mem_nodes_append hbmem).2 hm, ?_, hclass, hcovers⟩
      rw [hpath]
      exact ⟨by simp [List.append_assoc], by simp⟩
  · rintro ⟨m, hm, hbelow, hmclass, hk⟩
    obtain ⟨b, hb, ⟨more, hmore⟩, hne⟩ := h.inBody n hn m hm hclass hmclass hbelow
    obtain ⟨hbmem, hbody, -⟩ := Located.body?_spec hn hb
    have hat : b.tree.at? more = some m.tree := by
      have hm : (⟨b.path ++ more, m.tree⟩ : Located) ∈ t.nodes := by
        rw [hmore]
        exact hm
      exact mem_nodes.1 ((mem_nodes_append hbmem).1 hm)
    have hnil : more ≠ [] := by
      rintro rfl
      exact hne (by simpa using hmore)
    rw [innerSpans, hbody]
    exact (h.within.sub hbmem).inSpans_of_below hat hnil hmclass hk

end SyntaxTree

/-! ### The innermost class -/

section Innermost
open SyntaxTree
variable {t : SyntaxTree} {lines : Array (List Char)} {k : Nat}

theorem isBroken_of_isClass {s : SyntaxTree} (h : s.isClass = true) : s.isBroken = false := by
  have hkind : s.kind = .classDefinition := of_decide_eq_true h
  simp [isBroken, hkind]

namespace SyntaxTree.WellNested
variable (h : t.WellNested)
include h

theorem isBroken_eq_false {n : Located} (hn : n ∈ t.nodes) : n.tree.isBroken = false := by
  by_contra hbroken
  have herror := hasError_iff.2 ⟨n, hn, by simpa using hbroken⟩
  rw [h.sound] at herror
  exact absurd herror (by simp)

theorem mem_definitions {n : Located} :
    n ∈ t.definitions ↔ n ∈ t.nodes ∧ n.tree.isClass = true := by
  have hpasses : t.passesFault n.path = false := by
    rw [passesFault, List.any_eq_false]
    intro i _
    cases hs : t.at? (n.path.take i) with
    | none => simp
    | some s =>
      have hs : (⟨n.path.take i, s⟩ : Located) ∈ t.nodes := mem_nodes.2 hs
      simpa using h.isBroken_eq_false hs
  rw [definitions, List.mem_filter, hpasses]
  constructor
  · rintro ⟨hn, hclass⟩
    exact ⟨hn, by simp_all⟩
  · rintro ⟨hn, hclass⟩
    exact ⟨hn, by simp [hclass, isBroken_of_isClass hclass]⟩

theorem owns_iff {n : Located} (hn : n ∈ t.definitions) :
    n.tree.owns k = true ↔ n.tree.covers k = true ∧
      ∀ m ∈ t.definitions, m.tree.covers k = true → ¬ m.IsBelow n := by
  obtain ⟨hnode, hclass⟩ := h.mem_definitions.1 hn
  rw [owns, Bool.and_eq_true, Bool.not_eq_true', ← Bool.not_eq_true,
    h.inSpans_innerSpans hnode hclass]
  apply and_congr_right
  rintro -
  constructor
  · intro hnone m hm hk hbelow
    obtain ⟨hm, hmclass⟩ := h.mem_definitions.1 hm
    exact hnone ⟨m, hm, hbelow, hmclass, hk⟩
  · rintro hall ⟨m, hm, hbelow, hmclass, hk⟩
    exact hall m (h.mem_definitions.2 ⟨hm, hmclass⟩) hk hbelow

/-- Class definitions that share a line are nested. -/
theorem nested {n m : Located} (hn : n ∈ t.definitions) (hm : m ∈ t.definitions)
    (hnk : n.tree.covers k = true) (hmk : m.tree.covers k = true) :
    n.path <+: m.path ∨ m.path <+: n.path := by
  obtain ⟨hn, hnclass⟩ := h.mem_definitions.1 hn
  obtain ⟨hm, hmclass⟩ := h.mem_definitions.1 hm
  by_contra hneither
  obtain ⟨hnm, hmn⟩ := not_or.1 hneither
  exact h.apart n hn m hm hnclass hmclass hnm hmn k ⟨hnk, hmk⟩

theorem exists_innermost (hk : ∃ n ∈ t.definitions, n.tree.covers k = true) :
    ∃ n ∈ t.definitions, n.tree.covers k = true ∧
      ∀ m ∈ t.definitions, m.tree.covers k = true → m.path <+: n.path := by
  have hne : t.definitions.filter (·.tree.covers k) ≠ [] := by
    obtain ⟨n, hn, hcovers⟩ := hk
    exact List.ne_nil_of_mem (List.mem_filter.2 ⟨hn, hcovers⟩)
  -- It is the one with the longest path.
  obtain ⟨n, hmax⟩ := Option.ne_none_iff_exists'.1
    (mt (List.argmax_eq_none (f := fun n : Located => n.path.length)).1 hne)
  obtain ⟨hn, hcovers⟩ := List.mem_filter.1 (List.argmax_mem hmax)
  refine ⟨n, hn, hcovers, fun m hm hmk => ?_⟩
  rcases h.nested hn hm hcovers hmk with hbelow | habove
  · have hle := List.le_of_mem_argmax (List.mem_filter.2 ⟨hm, hmk⟩) hmax
    have he := hbelow.eq_of_length_le hle
    exact ⟨[], by rw [List.append_nil, he]⟩
  · exact habove

theorem owns_iff_innermost {n m : Located} (hn : n ∈ t.definitions) (hm : m ∈ t.definitions)
    (hcovers : n.tree.covers k = true)
    (hall : ∀ m ∈ t.definitions, m.tree.covers k = true → m.path <+: n.path) :
    m.tree.owns k = true ↔ m = n := by
  rw [h.owns_iff hm]
  constructor
  · rintro ⟨hmk, hnone⟩
    have hpath : m.path = n.path := by
      by_contra hne
      exact hnone n hn hcovers ⟨hall m hm hmk, hne⟩
    exact eq_of_path_eq (h.mem_definitions.1 hm).1 (h.mem_definitions.1 hn).1 hpath
  · rintro rfl
    refine ⟨hcovers, fun m' hm' hk hbelow => hbelow.2 ?_⟩
    exact hbelow.1.eq_of_length_le (hall m' hm' hk).length_le

end SyntaxTree.WellNested

/-! ### Counting -/

theorem countP_eq_one {α : Type} {p : α → Bool} {xs : List α} {x : α} (hnodup : xs.Nodup)
    (hx : x ∈ xs) (h : ∀ y ∈ xs, p y = true ↔ y = x) : xs.countP p = 1 := by
  classical
  rw [← List.count_eq_one_of_mem hnodup hx, List.count]
  exact List.countP_congr fun y hy => by rw [h y hy, beq_iff_eq]

/-- If each of the `ys` is counted for one of the `xs` or for none, counting for all of them counts
it once. -/
theorem sum_map_countP {α β : Type} {xs : List α} {ys : List β} {r : α → β → Bool} {p : β → Bool}
    (h : ∀ y ∈ ys, xs.countP (r · y) = if p y then 1 else 0) :
    (xs.map fun x => ys.countP (r x)).sum = ys.countP p := by
  induction ys with
  | nil => simp
  | cons y ys ih =>
    have hrest := ih fun y hy => h y (List.mem_cons_of_mem _ hy)
    have hhere := sum_map_ite (fun x => r x y = true) xs
    simp only [Bool.decide_eq_true] at hhere
    simp only [List.countP_cons]
    rw [List.sum_map_add, hrest, hhere, h y List.mem_cons_self]

theorem countP_range' {p : Nat → Bool} (first last size : Nat) :
    (List.range' first (min last size + 1 - first)).countP p =
      (List.range (size + 1)).countP fun k => p k && (first ≤ k && k ≤ last) := by
  have hperm : ((List.range (size + 1)).filter fun k => first ≤ k && k ≤ last).Perm
      (List.range' first (min last size + 1 - first)) := by
    refine (List.perm_ext_iff_of_nodup (List.nodup_range.filter _) List.nodup_range').2 fun k => ?_
    simp only [List.mem_filter, List.mem_range, Bool.and_eq_true, decide_eq_true_eq,
      List.mem_range'_1]
    omega
  rw [← hperm.countP_eq, List.countP_filter]

/-- The lines counted for a class definition are those of its own that hold text. -/
theorem classLoc_eq_countP (lines : Array (List Char)) (s : SyntaxTree) :
    s.classLoc lines =
      (List.range (lines.size + 1)).countP fun k => Text.holdsText lines k && s.owns k := by
  rw [classLoc, countLoc, countP_range']
  apply List.countP_congr
  intro k _
  rw [owns, covers, ← Text.holdsText]
  simp only [Bool.and_eq_true]
  tauto

end Innermost

/-- Whether the lines of the class definitions of a tree are counted once each, for the innermost
definition that takes them up. The classes that are told are the definitions that have a name, with
the lines counted for these. -/
structure CountsOnce (lines : Array (List Char)) (t : SyntaxTree) (a : Analysis) : Prop where
  locs : a.classes.map (·.loc) =
    (t.definitions.filter (·.tree.name?.isSome)).map (·.tree.classLoc lines)
  loc : ∀ n ∈ t.definitions, n.tree.classLoc lines =
    (List.range (lines.size + 1)).countP fun k => Text.holdsText lines k && n.tree.owns k
  innermost : ∀ k, (∃ n ∈ t.definitions, n.tree.covers k = true) →
    ∃ n ∈ t.definitions, n.tree.covers k = true ∧
      (∀ m ∈ t.definitions, m.tree.covers k = true → m.path <+: n.path) ∧
      ∀ m ∈ t.definitions, m.tree.owns k = true ↔ m = n
  total : (t.definitions.map (·.tree.classLoc lines)).sum =
    (List.range (lines.size + 1)).countP fun k =>
      Text.holdsText lines k && t.definitions.any (·.tree.covers k)
  told : (∀ n ∈ t.definitions, n.tree.name?.isSome = true) →
    (a.classes.map (·.loc)).sum = (List.range (lines.size + 1)).countP fun k =>
      Text.holdsText lines k && t.definitions.any (·.tree.covers k)

section Told
open SyntaxTree
variable {file : Path} {lines : Array (List Char)} {t : SyntaxTree}

/-- Without faults the classes are the definitions that have a name. -/
theorem locs_analyzeTree (h : t.WellNested) :
    (analyzeTree file lines t).classes.map (·.loc) =
      (t.definitions.filter (·.tree.name?.isSome)).map (·.tree.classLoc lines) := by
  rw [classes_analyzeTree, List.map_filterMap, ← List.filterMap_eq_map,
    List.filterMap_filter]
  apply List.filterMap_congr
  intro n hn
  have herror : n.tree.hasError = false :=
    (hasError_eq_false_iff (h.mem_definitions.1 hn).1).2 fun m hm _ => h.isBroken_eq_false hm
  rw [classFinding, herror]
  cases hname : n.tree.name? with
  | none => simp [Finding.class?]
  | some name =>
    simp only [Finding.class?]
    rfl

theorem sum_classLoc (h : t.WellNested) :
    (t.definitions.map (·.tree.classLoc lines)).sum =
      (List.range (lines.size + 1)).countP fun k =>
        Text.holdsText lines k && t.definitions.any (·.tree.covers k) := by
  simp only [classLoc_eq_countP]
  apply sum_map_countP (r := fun (n : Located) k => Text.holdsText lines k && n.tree.owns k)
  intro k _
  cases Text.holdsText lines k with
  | false => simp
  | true =>
    simp only [Bool.true_and]
    cases hk : t.definitions.any (·.tree.covers k) with
    | false =>
      rw [List.any_eq_false] at hk
      rw [if_neg (by simp), List.countP_eq_zero]
      intro n hn howns
      exact hk n hn (Bool.and_eq_true_iff.1 howns).1
    | true =>
      obtain ⟨n, hn, hcovers, hall⟩ := h.exists_innermost (List.any_eq_true.1 hk)
      rw [if_pos rfl]
      have hnodup : t.definitions.Nodup :=
        ((List.Nodup.of_map _ t.nodup_paths).filter _)
      exact countP_eq_one hnodup hn fun m hm => h.owns_iff_innermost hn hm hcovers hall

theorem WellNested.countsOnce (h : t.WellNested) (file : Path) (lines : Array (List Char)) :
    CountsOnce lines t (analyzeTree file lines t) where
  locs := locs_analyzeTree h
  loc := fun n _ => classLoc_eq_countP lines n.tree
  innermost := by
    intro k hk
    obtain ⟨n, hn, hcovers, hall⟩ := h.exists_innermost hk
    exact ⟨n, hn, hcovers, hall, fun m hm => h.owns_iff_innermost hn hm hcovers hall⟩
  total := sum_classLoc h
  told := by
    intro hnamed
    rw [locs_analyzeTree h, List.filter_eq_self.2 hnamed, sum_classLoc h]

end Told

def nestedTree : SyntaxTree :=
  let named (name : String) (line : Nat) : SyntaxTree :=
    .leaf { role := .name, span := (line, line), text := name }
  .node { span := (1, 8) } [
    .node { kind := .classDefinition, span := (1, 6) } [
      named "A" 1,
      .node { role := .body, span := (2, 6) } [
        .node { kind := .functionDefinition, span := (2, 5) } [
          .node { role := .body, span := (3, 5) } [
            .node { kind := .classDefinition, span := (3, 5) } [
              named "B" 3, .leaf { role := .body, span := (5, 5) }]]],
        .leaf { span := (6, 6) }]],
    .node { kind := .classDefinition, span := (7, 8) } [
      named "C" 7, .leaf { role := .body, span := (8, 8) }]]

def nestedLines : Array (List Char) :=
  #["class A:".toList, "  def f(self):".toList, "    class B:".toList, "".toList,
    "      x = 1".toList, "  y = 2".toList, "class C:".toList, "  pass".toList]

theorem wellNested_nestedTree : nestedTree.WellNested where
  sound := by decide
  within := by decide
  inBody := by
    have hbody : ∀ n ∈ nestedTree.nodes, ∀ m ∈ nestedTree.nodes, n.tree.isClass = true →
        m.tree.isClass = true → m.IsBelow n → (n.body?.any fun b => m.IsBelow b) = true := by
      decide
    intro n hn m hm hnclass hmclass hbelow
    obtain ⟨b, hb, hm⟩ :=
      (Option.any_eq_true _ _).1 (hbody n hn m hm hnclass hmclass hbelow)
    exact ⟨b, hb, of_decide_eq_true hm⟩
  apart := by
    have hspans : ∀ n ∈ nestedTree.nodes, ∀ m ∈ nestedTree.nodes, n.tree.isClass = true →
        m.tree.isClass = true → ¬ n.path <+: m.path → ¬ m.path <+: n.path →
        n.tree.label.span.2 < m.tree.label.span.1 ∨ m.tree.label.span.2 < n.tree.label.span.1 := by
      decide
    intro n hn m hm hnclass hmclass hnm hmn k
    have := hspans n hn m hm hnclass hmclass hnm hmn
    simp only [SyntaxTree.covers, Bool.and_eq_true, decide_eq_true_eq]
    omega

end CodeAtlas.Python
