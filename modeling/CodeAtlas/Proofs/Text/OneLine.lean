import Mathlib.Algebra.GroupWithZero.Nat
import Mathlib.Algebra.Order.BigOperators.Group.List
import Mathlib.Data.List.Count
import CodeAtlas.Proofs.Text.LetterCase
import CodeAtlas.Proofs.Text.LineNumbers
import CodeAtlas.Text.Fields

namespace CodeAtlas

def OneLine (s : String) : Prop := '\n' ∉ s.toList

instance (s : String) : Decidable (OneLine s) := inferInstanceAs (Decidable (¬ _))

theorem oneLine_append {a b : String} : OneLine (a ++ b) ↔ OneLine a ∧ OneLine b := by
  simp [OneLine, not_or]

theorem oneLine_ite {p : Prop} [Decidable p] {a b : String} (ha : OneLine a) (hb : OneLine b) :
    OneLine (if p then a else b) := by
  split
  · exact ha
  · exact hb

theorem not_mem_toString {c : Char} (hc : c.isDigit = false) (n : Nat) :
    c ∉ (toString n).toList := by
  intro h
  have hmem : c ∈ Nat.toDigits 10 n := Nat.toList_repr ▸ h
  rw [Nat.isDigit_of_mem_toDigits (by decide) (Nat.le_refl 10) hmem] at hc
  exact absurd hc (by decide)

theorem oneLine_toString (n : Nat) : OneLine (toString n) := not_mem_toString (by decide) n

theorem not_mem_intercalate {c : Char} {sep : String} {xs : List String} (hsep : c ∉ sep.toList)
    (h : ∀ s ∈ xs, c ∉ s.toList) : c ∉ (sep.intercalate xs).toList := by
  induction xs with
  | nil => simp
  | cons x xs ih =>
    have hx := h x List.mem_cons_self
    cases xs with
    | nil => simpa using hx
    | cons y ys =>
      have hrest := ih fun s hs => h s (List.mem_cons_of_mem x hs)
      simp only [String.intercalate_cons_cons, String.toList_append, List.mem_append, not_or]
      exact ⟨⟨hx, hsep⟩, hrest⟩

theorem oneLine_intercalate {sep : String} {xs : List String} (hsep : OneLine sep)
    (h : ∀ s ∈ xs, OneLine s) : OneLine (sep.intercalate xs) :=
  not_mem_intercalate hsep h

theorem oneLine_lower {s : String} : OneLine (Text.lower s) ↔ OneLine s := by
  have hlow : Text.IsLow '\n' := ⟨by decide +kernel, by decide⟩
  rw [OneLine, OneLine, Text.lower, String.toList_ofList, not_iff_not]
  exact ⟨Text.mem_of_mem_lowerAfter (by decide), Text.mem_lowerAfter_of_isLow hlow⟩

theorem sum_map_eq_zero {α : Type} {f : α → Nat} {xs : List α} (h : ∀ x ∈ xs, f x = 0) :
    (xs.map f).sum = 0 := by
  rw [List.sum_eq_zero_iff_forall_eq_nat]
  exact List.forall_mem_map.2 h

theorem sum_map_ite {α : Type} (p : α → Prop) [DecidablePred p] (xs : List α) :
    (xs.map fun x => if p x then 1 else 0).sum = xs.countP fun x => p x := by
  induction xs with
  | nil => rfl
  | cons x xs ih =>
    rw [List.map_cons, List.sum_cons, ih, List.countP_cons, Nat.add_comm]
    simp

namespace Text

def unlines (blocks : List String) : String := String.join (blocks.map (· ++ "\n"))

theorem unlines_nil : unlines [] = "" := rfl

theorem unlines_cons (b : String) (blocks : List String) :
    unlines (b :: blocks) = b ++ "\n" ++ unlines blocks := by
  rw [unlines, List.map_cons, String.join_cons]
  rfl

theorem unlines_append (xs ys : List String) : unlines (xs ++ ys) = unlines xs ++ unlines ys := by
  simp [unlines]

theorem unlines_flatMap {α : Type} (f : α → List String) (xs : List α) :
    unlines (xs.flatMap f) = String.join (xs.map fun x => unlines (f x)) := by
  induction xs with
  | nil => rfl
  | cons x xs ih => rw [List.flatMap_cons, unlines_append, ih, List.map_cons, String.join_cons]

/-! ### Cutting a text into its lines -/

/-- The lines of a text, which end at the line feeds. -/
def rawLines (s : String) : List String := (fields '\n' s.toList).map String.ofList

def bareLines (s : String) : List String := (lines s.toList).map String.ofList

def withoutReturn (line : String) : String :=
  String.ofList (dropReturn line.toList.reverse).reverse

theorem withoutReturn_eq_self {line : String} (h : line.toList.getLast? ≠ some '\r') :
    withoutReturn line = line := by
  rw [withoutReturn, dropReturn_eq (by rwa [List.head?_reverse]), List.reverse_reverse,
    String.ofList_toList]

theorem withoutReturn_isPrefix (line : String) :
    (withoutReturn line).toList <+: line.toList := by
  have hsuffix : ∀ cs, dropReturn cs <:+ cs := by
    intro cs
    unfold dropReturn
    split
    · exact List.suffix_cons _ _
    · exact List.suffix_rfl
  rw [withoutReturn, String.toList_ofList, ← List.reverse_suffix, List.reverse_reverse]
  exact hsuffix _

theorem rawLines_of_oneLine {s : String} (h : OneLine s) : rawLines s = [s] := by
  rw [rawLines, fields_of_not_mem h, List.map_singleton, String.ofList_toList]

theorem rawLines_append_newline (a b : String) :
    rawLines (a ++ "\n" ++ b) = rawLines a ++ rawLines b := by
  have hlist : (a ++ "\n" ++ b).toList = a.toList ++ '\n' :: b.toList := by simp
  rw [rawLines, hlist, fields_append_sep, List.map_append]
  rfl

theorem rawLines_unlines (blocks : List String) :
    rawLines (unlines blocks) = blocks.flatMap rawLines ++ [""] := by
  induction blocks with
  | nil => rfl
  | cons b blocks ih =>
    rw [unlines_cons, rawLines_append_newline, ih, List.flatMap_cons, List.append_assoc]

theorem rawLines_intercalate {blocks : List String} (hne : blocks ≠ [])
    (h : ∀ b ∈ blocks, OneLine b) : rawLines ("\n".intercalate blocks) = blocks := by
  have hfields : fields '\n' ("\n".intercalate blocks).toList = blocks.map String.toList := by
    rw [String.toList_intercalate]
    refine fields_intercalate (by simp [hne]) fun cs hcs => ?_
    obtain ⟨b, hb, rfl⟩ := List.mem_map.1 hcs
    exact h b hb
  rw [rawLines, hfields, List.map_map]
  exact List.map_id'' (fun _ => String.ofList_toList) _

theorem intercalate_rawLines (s : String) : "\n".intercalate (rawLines s) = s := by
  apply String.toList_inj.1
  rw [String.toList_intercalate, rawLines, List.map_map,
    List.map_id'' (f := String.toList ∘ String.ofList) (fun _ => String.toList_ofList)]
  exact intercalate_fields '\n' s.toList

/-- The line that is being read, `line`, goes on to the next line feed. -/
theorem linesFrom_append_newline (line cs rest : List Char) :
    ∃ f fs, fields '\n' cs = f :: fs ∧ linesFrom line [] (cs ++ '\n' :: rest) =
      ((line.reverse ++ f) :: fs).map (fun l => (dropReturn l.reverse).reverse) ++ lines rest := by
  induction cs generalizing line with
  | nil =>
    refine ⟨[], [], rfl, ?_⟩
    rw [List.nil_append, linesFrom, if_pos rfl, linesFrom_eq]
    simp [lines]
  | cons c cs ih =>
    rw [List.cons_append, linesFrom, fields]
    split
    next hc =>
      obtain ⟨f, fs, hf, he⟩ := ih []
      refine ⟨[], f :: fs, by rw [hf], ?_⟩
      rw [linesFrom_eq, he]
      simp
    next hc =>
      obtain ⟨f, fs, hf, he⟩ := ih (c :: line)
      refine ⟨c :: f, fs, by rw [hf], ?_⟩
      rw [he]
      simp

theorem bareLines_append_newline (a b : String) :
    bareLines (a ++ "\n" ++ b) = (rawLines a).map withoutReturn ++ bareLines b := by
  have hlist : (a ++ "\n" ++ b).toList = a.toList ++ '\n' :: b.toList := by simp
  obtain ⟨f, fs, hf, he⟩ := linesFrom_append_newline [] a.toList b.toList
  rw [bareLines, hlist, lines, he, rawLines, hf, bareLines, List.map_append, List.reverse_nil,
    List.nil_append, List.map_map, List.map_map]
  congr 1
  exact List.map_congr_left fun l _ => by simp [withoutReturn]

theorem bareLines_unlines (blocks : List String) :
    bareLines (unlines blocks) = (blocks.flatMap rawLines).map withoutReturn := by
  induction blocks with
  | nil => rfl
  | cons b blocks ih =>
    rw [unlines_cons, bareLines_append_newline, ih, List.flatMap_cons, List.map_append]

/-! ### Counting lines -/

def countLines (line s : String) : Nat := (fields '\n' s.toList).count line.toList

theorem countLines_eq_count (line s : String) : countLines line s = (rawLines s).count line := by
  have hinj : Function.Injective String.ofList := fun _ _ he => String.ofList_inj.1 he
  have hcount := List.count_map_of_injective (fields '\n' s.toList) String.ofList hinj line.toList
  rwa [String.ofList_toList, eq_comm] at hcount

theorem countLines_unlines (line : String) (blocks : List String) :
    countLines line (unlines blocks) = (blocks.map (countLines line)).sum + countLines line "" := by
  have hblocks : countLines line = List.count line ∘ rawLines :=
    funext (countLines_eq_count line)
  rw [hblocks, Function.comp_apply, Function.comp_apply, rawLines_unlines, List.count_append,
    List.count_flatMap]
  rfl

theorem countLines_of_oneLine {line s : String} (h : OneLine s) :
    countLines line s = if s = line then 1 else 0 := by
  rw [countLines_eq_count, rawLines_of_oneLine h, List.count_singleton]
  simp

theorem countLines_eq_zero_of_not_mem {line s : String} {c : Char} (hline : c ∈ line.toList)
    (hs : c ∉ s.toList) : countLines line s = 0 := by
  rw [countLines, List.count_eq_zero]
  exact fun hmem => hs (subset_of_mem_fields hmem hline)

end Text
end CodeAtlas
