import Mathlib.Data.List.Basic
import CodeAtlas.Diagram.Model
import CodeAtlas.Proofs.Diagram.IdTexts

namespace CodeAtlas

/-! ### Counting within files -/

/-- The classes with their file numbers and with how often each number was met before, to which
`taken` adds. -/
def countedFrom (taken : Nat → Nat) : List (Nat × ClassInfo) → List (ClassInfo × Nat × Nat)
  | [] => []
  | (f, c) :: rest =>
    (c, f, taken f) :: countedFrom (fun g => if g = f then taken f + 1 else taken g) rest

section Counted
variable {taken taken' : Nat → Nat}

theorem map_fst_countedFrom (taken : Nat → Nat) (xs : List (Nat × ClassInfo)) :
    (countedFrom taken xs).map (·.1) = xs.map (·.2) := by
  induction xs generalizing taken with
  | nil => rfl
  | cons x xs ih => rw [countedFrom, List.map_cons, ih, List.map_cons]

theorem countedFrom_congr {xs : List (Nat × ClassInfo)} (h : ∀ x ∈ xs, taken x.1 = taken' x.1) :
    countedFrom taken xs = countedFrom taken' xs := by
  induction xs generalizing taken taken' with
  | nil => rfl
  | cons x xs ih =>
    have hx := h x List.mem_cons_self
    rw [countedFrom, countedFrom, hx]
    congr 1
    apply ih
    intro y hy
    rw [h y (List.mem_cons_of_mem x hy)]

theorem countedFrom_append (taken : Nat → Nat) (xs ys : List (Nat × ClassInfo)) :
    countedFrom taken (xs ++ ys) = countedFrom taken xs ++
      countedFrom (fun g => taken g + xs.countP fun x => x.1 = g) ys := by
  induction xs generalizing taken with
  | nil => rfl
  | cons x xs ih =>
    rw [List.cons_append, countedFrom, ih, countedFrom, List.cons_append]
    congr 2
    apply countedFrom_congr
    intro y _
    rw [List.countP_cons]
    by_cases hy : y.1 = x.1
    · simp only [hy]
      simp
      omega
    · simp [hy, Ne.symm hy]

theorem countedFrom_map_succ {xs : List (Nat × ClassInfo)}
    (h : ∀ x ∈ xs, taken' (x.1 + 1) = taken x.1) :
    countedFrom taken' (xs.map fun x => (x.1 + 1, x.2)) =
      (countedFrom taken xs).map fun e => (e.1, e.2.1 + 1, e.2.2) := by
  induction xs generalizing taken taken' with
  | nil => rfl
  | cons x xs ih =>
    have hx := h x List.mem_cons_self
    rw [List.map_cons, countedFrom, countedFrom, List.map_cons, hx]
    congr 1
    apply ih
    intro y hy
    simp only [Nat.add_right_cancel_iff, h y (List.mem_cons_of_mem x hy)]

/-- Each number is counted up from what is taken, once for each class that has it. -/
theorem mem_countedFrom {xs : List (Nat × ClassInfo)} {e : ClassInfo × Nat × Nat}
    (h : e ∈ countedFrom taken xs) : (e.2.1, e.1) ∈ xs ∧ taken e.2.1 ≤ e.2.2 ∧
      e.2.2 < taken e.2.1 + xs.countP fun x => x.1 = e.2.1 := by
  induction xs generalizing taken with
  | nil => simp [countedFrom] at h
  | cons x xs ih =>
    rw [countedFrom] at h
    rcases List.mem_cons.1 h with rfl | h
    · simp
    · obtain ⟨hmem, hle, hlt⟩ := ih h
      refine ⟨List.mem_cons_of_mem x hmem, ?_⟩
      rw [List.countP_cons]
      by_cases he : e.2.1 = x.1
      · simp only [he, if_true] at hle hlt ⊢
        simp only [decide_true, if_true]
        omega
      · simp only [he, if_false] at hle hlt
        simp only [Ne.symm he, decide_false, Bool.false_eq_true, if_false]
        omega

theorem nodup_countedFrom (taken : Nat → Nat) (xs : List (Nat × ClassInfo)) :
    ((countedFrom taken xs).map (·.2)).Nodup := by
  induction xs generalizing taken with
  | nil => simp [countedFrom]
  | cons x xs ih =>
    rw [countedFrom, List.map_cons, List.nodup_cons]
    refine ⟨fun hmem => ?_, ih _⟩
    obtain ⟨e, he, hsame⟩ := List.mem_map.1 hmem
    obtain ⟨-, hle, -⟩ := mem_countedFrom he
    simp only [hsame, if_true] at hle
    omega

end Counted

/-! ### The nodes that are added -/

def moduleNode (moduleFile : String) (n : ModuleNode) (ordinal : Nat) : DiagramNode :=
  ⟨IdSupply.moduleText ordinal, .ofModule n.id n.displayName n.stats
    (if n.hasContent then some (n.documentPath moduleFile) else none)⟩

def classNode (ordinal : Nat) (doc : Path) (e : ClassInfo × Nat × Nat) : DiagramNode :=
  ⟨IdSupply.classText ordinal e.2.1 e.2.2,
    .ofClass e.1.name e.1.loc e.1.methodCount e.1.anchor doc⟩

namespace DiagramModel

theorem foldl_addModule (moduleFile : String) (ns : List ModuleNode) (draft : Draft) :
    (ns.foldl (addModule moduleFile) draft).1.nodes.toList = draft.1.nodes.toList ++
        (ns.zipIdx draft.2.nextModule).map (fun n => moduleNode moduleFile n.1 n.2) ∧
      (ns.foldl (addModule moduleFile) draft).2.taken = draft.2.taken := by
  induction ns generalizing draft with
  | nil => simp
  | cons n ns ih =>
    obtain ⟨hnodes, htaken⟩ := ih (addModule moduleFile draft n)
    rw [List.foldl_cons, hnodes, htaken]
    constructor
    · simp [addModule, IdSupply.takeModule, moduleNode, List.zipIdx_cons]
    · rfl

theorem foldl_addClass (position ordinal : Nat) (doc : Path) (xs : List (Nat × ClassInfo))
    (draft : Draft) :
    (xs.foldl (addClass position ordinal doc) draft).1.nodes.toList = draft.1.nodes.toList ++
        (countedFrom (draft.2.takenFor ordinal) xs).map (classNode ordinal doc) ∧
      ∀ m ≠ ordinal, (xs.foldl (addClass position ordinal doc) draft).2.takenFor m =
        draft.2.takenFor m := by
  induction xs generalizing draft with
  | nil => simp [countedFrom]
  | cons x xs ih =>
    obtain ⟨hnodes, htaken⟩ := ih (addClass position ordinal doc draft x)
    have hids : (addClass position ordinal doc draft x).2 =
        (draft.2.takeClass ordinal x.1).2 := rfl
    constructor
    · have hcount : (addClass position ordinal doc draft x).2.takenFor ordinal = fun g =>
          if g = x.1 then draft.2.takenFor ordinal x.1 + 1 else draft.2.takenFor ordinal g := by
        funext g
        rw [hids, IdSupply.takenFor_takeClass]
        simp
      rw [List.foldl_cons, hnodes, hcount, countedFrom, List.map_cons]
      simp [addClass, IdSupply.takeClass, classNode]
    · intro m hm
      rw [List.foldl_cons, htaken m hm, hids]
      funext g
      rw [IdSupply.takenFor_takeClass, if_neg (by simp [hm])]

theorem foldl_addClasses (moduleFile : String) (base k : Nat) (ns : List ModuleNode)
    (draft : Draft) :
    (((ns.zipIdx k).map fun (n, i) => (n, i, base + i)).foldl
        (addClasses moduleFile) draft).1.nodes.toList =
      draft.1.nodes.toList ++ (ns.zipIdx k).flatMap fun (n, i) =>
        (countedFrom (draft.2.takenFor (base + i)) (numberFiles n.classes)).map
          (classNode (base + i) (n.documentPath moduleFile)) := by
  induction ns generalizing k draft with
  | nil => simp
  | cons n ns ih =>
    have hstep := foldl_addClass k (base + k) (n.documentPath moduleFile)
      (numberFiles n.classes) draft
    obtain ⟨hnodes, htaken⟩ := hstep
    have hdraft : addClasses moduleFile draft (n, k, base + k) = (numberFiles n.classes).foldl
        (addClass k (base + k) (n.documentPath moduleFile)) draft := rfl
    rw [List.zipIdx_cons, List.map_cons, List.foldl_cons, ih, hdraft, hnodes, List.flatMap_cons,
      List.append_assoc]
    congr 2
    -- The modules that follow have other numbers, for which nothing more is taken.
    apply List.flatMap_congr
    rintro ⟨n', i⟩ hi
    have hlt := List.le_snd_of_mem_zipIdx hi
    simp only at hlt ⊢
    rw [htaken (base + i) (by omega)]

theorem nodes_build (t : ModuleTree) (moduleFile : String) (ids : IdSupply) :
    (build t moduleFile ids).1.nodes.toList =
      (t.modules.zipIdx ids.nextModule).map (fun n => moduleNode moduleFile n.1 n.2) ++
        t.modules.zipIdx.flatMap fun (n, i) =>
          (countedFrom (ids.takenFor (ids.nextModule + i)) (numberFiles n.classes)).map
            (classNode (ids.nextModule + i) (n.documentPath moduleFile)) := by
  obtain ⟨hnodes, htaken⟩ := foldl_addModule moduleFile t.modules (empty, ids)
  have htakenFor : ∀ m, (t.modules.foldl (addModule moduleFile) (empty, ids)).2.takenFor m =
      ids.takenFor m := by
    intro m
    funext f
    rw [IdSupply.takenFor, htaken, IdSupply.takenFor]
  rw [build, foldl_addClasses, hnodes]
  simp only [htakenFor]
  simp [empty]

end DiagramModel
end CodeAtlas
