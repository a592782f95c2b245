import CodeAtlas.Proofs.Diagram.Refinement

/-!
# No id twice

Whatever is asked of a supply of ids and in which order, no id is handed out twice. A model takes its
ids one by one, so models that share a supply have no id in common. Within a module the classes
of one file, and no others, have the number of this file in their ids.
-/
namespace CodeAtlas
namespace IdSupply

/-! ### Calls -/

inductive Call where
  | nextModule
  | nextClass (module file : Nat)
  deriving DecidableEq, Repr

def answer (s : IdSupply) : Call → String × IdSupply
  | .nextModule => (moduleText s.takeModule.1, s.takeModule.2)
  | .nextClass module file => s.takeClass module file

def answers (s : IdSupply) : List Call → List String
  | [] => []
  | call :: calls => (s.answer call).1 :: (s.answer call).2.answers calls

def after (s : IdSupply) : List Call → IdSupply
  | [] => s
  | call :: calls => (s.answer call).2.after calls

theorem answers_append (s : IdSupply) (calls more : List Call) :
    s.answers (calls ++ more) = s.answers calls ++ (s.after calls).answers more := by
  induction calls generalizing s with
  | nil => rfl
  | cons call calls ih => rw [List.cons_append, answers, ih, answers, after, List.cons_append]

theorem after_append (s : IdSupply) (calls more : List Call) :
    s.after (calls ++ more) = (s.after calls).after more := by
  induction calls generalizing s with
  | nil => rfl
  | cons call calls ih => rw [List.cons_append, after, ih, after]

/-! ### What has not been handed out -/

/-- The ids that a supply has not counted past. -/
inductive Fresh (s : IdSupply) : String → Prop
  | ofModule {n : Nat} (h : s.nextModule ≤ n) : Fresh s (moduleText n)
  | ofClass {module file n : Nat} (h : s.takenFor module file ≤ n) :
    Fresh s (classText module file n)

section Step
variable {s : IdSupply} {call : Call} {id : String}

theorem fresh_moduleText {n : Nat} : s.Fresh (moduleText n) ↔ s.nextModule ≤ n := by
  constructor
  · intro h
    generalize hid : moduleText n = id at h
    cases h with
    | ofModule h => exact moduleText_inj.1 hid ▸ h
    | ofClass => exact absurd hid (moduleText_ne_classText _ _ _ _)
  · exact Fresh.ofModule

theorem fresh_classText {module file n : Nat} :
    s.Fresh (classText module file n) ↔ s.takenFor module file ≤ n := by
  constructor
  · intro h
    generalize hid : classText module file n = id at h
    cases h with
    | ofModule => exact absurd hid.symm (moduleText_ne_classText _ _ _ _)
    | ofClass h =>
      obtain ⟨rfl, rfl, rfl⟩ := classText_inj.1 hid
      exact h
  · exact Fresh.ofClass

theorem fresh_answer (s : IdSupply) (call : Call) : s.Fresh (s.answer call).1 := by
  cases call with
  | nextModule => exact fresh_moduleText.2 (Nat.le_refl _)
  | nextClass module file => exact fresh_classText.2 (Nat.le_refl _)

theorem not_fresh_answer (s : IdSupply) (call : Call) :
    ¬ (s.answer call).2.Fresh (s.answer call).1 := by
  cases call with
  | nextModule =>
    intro h
    have hle : s.nextModule + 1 ≤ s.nextModule := fresh_moduleText.1 h
    omega
  | nextClass module file =>
    intro h
    have hle : (s.takeClass module file).2.takenFor module file ≤ s.takenFor module file :=
      fresh_classText.1 h
    rw [takenFor_takeClass, if_pos rfl] at hle
    omega

theorem Fresh.of_answer (h : (s.answer call).2.Fresh id) : s.Fresh id := by
  cases h with
  | @ofModule n h =>
    have hle : s.nextModule ≤ (s.answer call).2.nextModule := by
      cases call with
      | nextModule => exact Nat.le_succ _
      | nextClass module file => exact Nat.le_refl _
    exact fresh_moduleText.2 (Nat.le_trans hle h)
  | @ofClass module file n h =>
    have hle : s.takenFor module file ≤ (s.answer call).2.takenFor module file := by
      cases call with
      | nextModule => exact Nat.le_refl _
      | nextClass module' file' =>
        have htaken := s.takenFor_takeClass module' file' module file
        rw [answer, htaken]
        split
        next he =>
          obtain ⟨rfl, rfl⟩ := Prod.mk.inj he
          exact Nat.le_succ _
        · exact Nat.le_refl _
    exact fresh_classText.2 (Nat.le_trans hle h)

end Step

theorem fresh_of_mem_answers {s : IdSupply} {calls : List Call} {id : String}
    (h : id ∈ s.answers calls) : s.Fresh id := by
  induction calls generalizing s with
  | nil => simp [answers] at h
  | cons call calls ih =>
    rw [answers, List.mem_cons] at h
    rcases h with rfl | h
    · exact fresh_answer s call
    · exact (ih h).of_answer

theorem nodup_answers (s : IdSupply) (calls : List Call) : (s.answers calls).Nodup := by
  induction calls generalizing s with
  | nil => simp [answers]
  | cons call calls ih =>
    rw [answers, List.nodup_cons]
    exact ⟨fun h => not_fresh_answer s call (fresh_of_mem_answers h), ih _⟩

/-! ### The number of the file -/

def filePart? (id : String) : Option (List Char) := (Text.fields '_' id.toList)[1]?

theorem filePart?_classText (module file n : Nat) :
    filePart? (classText module file n) = some (toString file).toList := by
  rw [filePart?, fields_classText]
  rfl

theorem filePart?_eq_iff {module file n module' file' n' : Nat} :
    filePart? (classText module file n) = filePart? (classText module' file' n') ↔
      file = file' := by
  rw [filePart?_classText, filePart?_classText, Option.some.injEq]
  constructor
  · exact toString_inj
  · rintro rfl
    rfl

end IdSupply

open IdSupply (Call)

namespace DiagramModel

/-! ### The calls of a model -/

def ids (m : DiagramModel) : List String := m.nodes.toList.map (·.id)

/-- Whether a draft becomes another one by nodes whose ids are taken by these calls. -/
structure Draws (draft draft' : Draft) (calls : List Call) : Prop where
  ids_eq : draft'.1.ids = draft.1.ids ++ draft.2.answers calls
  supply_eq : draft'.2 = draft.2.after calls

theorem Draws.refl (draft : Draft) : Draws draft draft [] where
  ids_eq := by rw [IdSupply.answers, List.append_nil]
  supply_eq := rfl

theorem Draws.trans {draft draft' draft'' : Draft} {calls calls' : List Call}
    (h : Draws draft draft' calls) (h' : Draws draft' draft'' calls') :
    Draws draft draft'' (calls ++ calls') where
  ids_eq := by
    rw [h'.ids_eq, h.ids_eq, h.supply_eq, IdSupply.answers_append, List.append_assoc]
  supply_eq := by rw [h'.supply_eq, h.supply_eq, IdSupply.after_append]

theorem Draws.foldl {α : Type} {f : Draft → α → Draft} {calls : α → List Call}
    (h : ∀ draft x, Draws draft (f draft x) (calls x)) (xs : List α) (draft : Draft) :
    Draws draft (xs.foldl f draft) (xs.flatMap calls) := by
  induction xs generalizing draft with
  | nil => exact Draws.refl draft
  | cons x xs ih =>
    rw [List.foldl_cons, List.flatMap_cons]
    exact (h draft x).trans (ih _)

theorem draws_addModule (moduleFile : String) (draft : Draft) (n : ModuleNode) :
    Draws draft (addModule moduleFile draft n) [.nextModule] where
  ids_eq := by simp [ids, addModule, IdSupply.answers, IdSupply.answer]
  supply_eq := rfl

theorem draws_addClass (position ordinal : Nat) (doc : Path) (draft : Draft)
    (c : Nat × ClassInfo) :
    Draws draft (addClass position ordinal doc draft c) [.nextClass ordinal c.1] where
  ids_eq := by simp [ids, addClass, IdSupply.answers, IdSupply.answer]
  supply_eq := rfl

def classCalls (n : ModuleNode × Nat × Nat) : List Call :=
  (numberFiles n.1.classes).flatMap fun c => [.nextClass n.2.2 c.1]

theorem draws_addClasses (moduleFile : String) (draft : Draft) (n : ModuleNode × Nat × Nat) :
    Draws draft (addClasses moduleFile draft n) (classCalls n) := by
  obtain ⟨node, position, ordinal⟩ := n
  exact Draws.foldl (draws_addClass position ordinal (node.documentPath moduleFile)) _ draft

theorem exists_ids_build_eq (t : ModuleTree) (moduleFile : String) (s : IdSupply) :
    ∃ calls, (build t moduleFile s).1.ids = s.answers calls ∧
      (build t moduleFile s).2 = s.after calls := by
  have hmodules := Draws.foldl (draws_addModule moduleFile) t.modules (empty, s)
  have hclasses := Draws.foldl (draws_addClasses moduleFile)
    (t.modules.zipIdx.map fun x => (x.1, x.2, s.nextModule + x.2))
    (t.modules.foldl (addModule moduleFile) (empty, s))
  have hall := hmodules.trans hclasses
  exact ⟨_, hall.ids_eq, hall.supply_eq⟩

/-- The models of several trees, each with the name of its documents, that share a supply. -/
def buildAll (s : IdSupply) : List (ModuleTree × String) → List DiagramModel
  | [] => []
  | (t, moduleFile) :: rest =>
    (build t moduleFile s).1 :: buildAll (build t moduleFile s).2 rest

theorem exists_ids_buildAll_eq (s : IdSupply) (trees : List (ModuleTree × String)) :
    ∃ calls, (buildAll s trees).flatMap ids = s.answers calls := by
  induction trees generalizing s with
  | nil => exact ⟨[], rfl⟩
  | cons x trees ih =>
    obtain ⟨t, moduleFile⟩ := x
    obtain ⟨calls, hids, hsupply⟩ := exists_ids_build_eq t moduleFile s
    obtain ⟨more, hmore⟩ := ih (build t moduleFile s).2
    refine ⟨calls ++ more, ?_⟩
    rw [buildAll, List.flatMap_cons, hids, hmore, hsupply, IdSupply.answers_append]

/-! ### The files of a module -/

/-- Whether the nodes of a module's classes tell of these classes, in their order, with ids that
share the file part exactly where the files are the same. -/
structure TellsFiles (m : DiagramModel) (n : ModuleNode) (moduleFile : String)
    (module : Nat) : Prop where
  infos : (m.classNodes module).map (·.info) = n.classInfos moduleFile
  filePart : ∀ e ∈ n.classes.zip (m.classNodes module),
    ∀ e' ∈ n.classes.zip (m.classNodes module),
      IdSupply.filePart? e.2.id = IdSupply.filePart? e'.2.id ↔ e.1.file.same e'.1.file = true

section Built
variable {roots : List ModuleRoot} {classes : List ClassInfo} {t : ModuleTree}
  (h : Built roots classes t) (moduleFile : String) (s : IdSupply)
include h

theorem fileSorted_get_classes {i : Nat} (hi : i < t.size) : FileSorted (t.get i).classes := by
  rw [h.get_classes hi]
  exact (pairwise_sortClasses _).imp ClassInfo.cmpFile_isLE_of_cmp_isLE

/-- The id of a class of the module is made with the number of the class's file. -/
theorem exists_of_mem_zip_classNodes {i : Nat} (hi : i < t.size) {e : ClassInfo × DiagramNode}
    (he : e ∈ (t.get i).classes.zip ((build t moduleFile s).1.classNodes i)) :
    e.1 ∈ (t.get i).classes ∧ ∃ n, e.2.id =
      IdSupply.classText (s.nextModule + i) (fileNumber (t.get i).classes e.1.file) n := by
  let counted := countedFrom (s.takenFor (s.nextModule + i)) (numberFiles (t.get i).classes)
  have hclasses : counted.map (·.1) = (t.get i).classes := by
    rw [map_fst_countedFrom, map_snd_numberFiles]
  have hzip : (t.get i).classes.zip (ownNodesFrom s t moduleFile i) =
      counted.map fun x =>
        (x.1, classNode (s.nextModule + i) ((t.get i).documentPath moduleFile) x) := by
    symm
    apply List.zip_of_prod
    · rw [List.map_map]
      exact hclasses
    · rw [List.map_map]
      rfl
  rw [classNodes_build h.linked moduleFile s hi, hzip] at he
  obtain ⟨x, hx, rfl⟩ := List.mem_map.1 he
  obtain ⟨hmem, -, -⟩ := mem_countedFrom hx
  rw [numberFiles_eq (fileSorted_get_classes h hi), mem_withNumbers] at hmem
  obtain ⟨hc, hnumber⟩ := hmem
  exact ⟨hc, x.2.2, by rw [classNode, hnumber]⟩

theorem tellsFiles_build {i : Nat} (hi : i < t.size) :
    (build t moduleFile s).1.TellsFiles (t.get i) moduleFile i where
  infos := by
    rw [classNodes_build h.linked moduleFile s hi, map_info_ownNodesFrom]
    rfl
  filePart := by
    intro e he e' he'
    obtain ⟨hc, n, hid⟩ := exists_of_mem_zip_classNodes h moduleFile s hi he
    obtain ⟨hc', n', hid'⟩ := exists_of_mem_zip_classNodes h moduleFile s hi he'
    rw [hid, hid', IdSupply.filePart?_eq_iff, Path.same_iff]
    exact fileNumber_inj (List.mem_map_of_mem hc') hc

end Built

/-- Calls on one supply never return an id twice, nor do models that share it, and in the model of
a built tree the ids of a module's classes tell their files apart. -/
theorem ids_distinct :
    (∀ (s : IdSupply) (calls : List Call), (s.answers calls).Nodup) ∧
    (∀ (s : IdSupply) (trees : List (ModuleTree × String)),
      ((buildAll s trees).flatMap ids).Nodup) ∧
    ∀ (rootPaths : List Path) (files : List SourceFile) (classes : List ClassInfo)
      (moduleFile : String) (s : IdSupply),
      ∀ i < (aggregate rootPaths files classes).tree.size,
        (build (aggregate rootPaths files classes).tree moduleFile s).1.TellsFiles
          ((aggregate rootPaths files classes).tree.get i) moduleFile i := by
  refine ⟨IdSupply.nodup_answers, fun s trees => ?_, ?_⟩
  · obtain ⟨calls, hcalls⟩ := exists_ids_buildAll_eq s trees
    rw [hcalls]
    exact IdSupply.nodup_answers s calls
  · intro rootPaths files classes moduleFile s i hi
    exact tellsFiles_build (aggregate_built rootPaths files classes) moduleFile s hi

end DiagramModel
end CodeAtlas
