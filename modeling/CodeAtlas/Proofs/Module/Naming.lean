import CodeAtlas.Proofs.Module.Built
import CodeAtlas.Proofs.Path.Names

/-!
# Names of modules

The names of modules are those of directories: not empty and without a slash, also in small
letters. So a key is known by its text, and a node of a built tree is found by it. Only a root that
has no name of its own goes by one that is not ordinary, `.`.
-/
namespace CodeAtlas

theorem IsName.lower {s : String} (h : IsName s) : IsName (Text.lower s) := by
  obtain ⟨hne, hslash⟩ := h
  unfold IsName Text.lower
  rw [String.toList_ofList]
  refine ⟨fun he => hne ?_, fun hmem => hslash (Text.mem_of_mem_lowerAfter (by decide) hmem)⟩
  have hnil := Text.lowerAfter_eq_nil.1 (String.ofList_eq_empty_iff.1 he)
  exact String.toList_eq_nil_iff.1 hnil

theorem IsOrdinary.lower {s : String} (h : IsOrdinary s) : IsOrdinary (Text.lower s) := by
  obtain ⟨hname, hdot, hdots⟩ := isOrdinary_iff_ne.1 h
  have hsign : Text.IsSign '.' := by decide
  refine isOrdinary_iff_ne.2 ⟨hname.lower, fun he => hdot ?_, fun he => hdots ?_⟩
  · rw [← he, Text.lower_eq_of_isSign (by simpa [he] using hsign)]
  · rw [← he, Text.lower_eq_of_isSign (by simpa [he] using hsign)]

structure IsModulePath (names : List String) : Prop where
  head : ∀ s ∈ names.head?, s = "." ∨ IsOrdinary s
  tail : ∀ s ∈ names.tail, IsOrdinary s

namespace IsModulePath
variable {names : List String}

theorem nil : IsModulePath [] := ⟨by simp, by simp⟩

theorem eq_or_isOrdinary (h : IsModulePath names) {s : String} (hs : s ∈ names) :
    s = "." ∨ IsOrdinary s := by
  cases names with
  | nil => simp at hs
  | cons first rest =>
    rcases List.mem_cons.1 hs with rfl | hs
    · exact h.head s rfl
    · exact Or.inr (h.tail s hs)

theorem isName (h : IsModulePath names) : ∀ s ∈ names, IsName s := by
  intro s hs
  rcases h.eq_or_isOrdinary hs with rfl | hordinary
  · exact ⟨by decide, by decide⟩
  · exact hordinary.isName

theorem dot_not_mem_tail (h : IsModulePath names) : "." ∉ names.tail := fun hmem =>
  (isOrdinary_iff_ne.1 (h.tail "." hmem)).2.1 rfl

theorem of_isPrefix {xs : List String} (h : IsModulePath names) (hp : xs <+: names) :
    IsModulePath xs := by
  obtain ⟨rest, rfl⟩ := hp
  cases xs with
  | nil => exact nil
  | cons first xs => exact ⟨h.head, fun s hs => h.tail s (List.mem_append_left rest hs)⟩

theorem lower (h : IsModulePath names) : IsModulePath (ModuleKey.ofNames names) := by
  refine ⟨fun s hs => ?_, fun s hs => ?_⟩
  · rw [ModuleKey.ofNames, List.head?_map] at hs
    obtain ⟨first, hfirst, rfl⟩ := Option.map_eq_some_iff.1 hs
    rcases h.head first hfirst with rfl | ho
    · exact Or.inl (by decide)
    · exact Or.inr ho.lower
  · rw [ModuleKey.ofNames, ← List.map_tail] at hs
    obtain ⟨t, ht, rfl⟩ := List.mem_map.1 hs
    exact (h.tail t ht).lower

end IsModulePath

namespace ModuleRoot

theorem label_eq_or_isOrdinary (p : Path) :
    (ofPath p).label = "." ∨ IsOrdinary (ofPath p).label := by
  unfold ofPath Path.fileName?
  dsimp only
  cases h : p.components.getLast?.bind Component.normal? with
  | none => exact Or.inl rfl
  | some s =>
    obtain ⟨c, hc, hs⟩ := Option.bind_eq_some_iff.1 h
    obtain rfl := Component.normal?_eq_some.1 hs
    exact Or.inr (Path.isOrdinary_of_mem_components (List.mem_of_getLast? hc))

theorem isModulePath_of_moduleNames? {rootPaths : List Path} {dir : Path} {names : List String}
    (h : moduleNames? (ofPaths rootPaths) dir = some names) : IsModulePath names := by
  obtain ⟨r, hr, below, hbelow, rfl⟩ := moduleNames?_label h
  obtain ⟨p, -, rfl⟩ := mem_ofPaths hr
  refine ⟨fun s hs => ?_, fun s hs => ?_⟩
  · obtain rfl : (ofPath p).label = s := by simpa using hs
    exact label_eq_or_isOrdinary p
  · obtain ⟨c, hc, hs⟩ := List.mem_filterMap.1 hs
    obtain rfl := Component.normal?_eq_some.1 hs
    exact Path.isOrdinary_of_mem_components (hbelow _ hc)

theorem isModulePath_topNames (rootPaths : List Path) :
    IsModulePath (topNames (ofPaths rootPaths)) := by
  unfold topNames
  split
  next r hroots =>
    have hr : r ∈ ofPaths rootPaths := by simp [hroots]
    obtain ⟨p, -, rfl⟩ := mem_ofPaths hr
    exact ⟨by simpa using label_eq_or_isOrdinary p, by simp⟩
  · exact IsModulePath.nil

end ModuleRoot

theorem isModulePath_ofClass (rootPaths : List Path) (c : ClassInfo) :
    IsModulePath (Placement.ofClass (ModuleRoot.ofPaths rootPaths) c).names := by
  simp only [Placement.ofClass]
  cases h : ModuleRoot.moduleNames? (ModuleRoot.ofPaths rootPaths)
      (c.file.parent?.getD ⟨""⟩) with
  | none => exact ModuleRoot.isModulePath_topNames rootPaths
  | some names => exact ModuleRoot.isModulePath_of_moduleNames? h

theorem isName_of_mem_moduleKeys {rootPaths : List Path} {classes : List ClassInfo}
    {k : ModuleKey} (hk : k ∈ moduleKeys (ModuleRoot.ofPaths rootPaths) classes) {s : String}
    (hs : s ∈ k) : IsName s := by
  rcases mem_moduleKeys.1 hk with rfl | ⟨c, -, -, hpre⟩
  · exact (ModuleRoot.isModulePath_topNames rootPaths).lower.isName s hs
  · exact ((isModulePath_ofClass rootPaths c).lower.of_isPrefix hpre).isName s hs

theorem ModuleKey.text_inj {k k' : ModuleKey} (h : ∀ s ∈ k, IsName s) (h' : ∀ s ∈ k', IsName s)
    (he : k.text = k'.text) : k = k' :=
  Path.ofNames_inj h h' he

section Built
variable {rootPaths : List Path} {classes : List ClassInfo} {t : ModuleTree}

theorem Built.key_text_inj (h : Built (ModuleRoot.ofPaths rootPaths) classes t) {i j : Nat}
    (hi : i < t.size) (hj : j < t.size) (he : (t.get i).key.text = (t.get j).key.text) : i = j :=
  h.get_key_inj hi hj (ModuleKey.text_inj (fun _ => isName_of_mem_moduleKeys (h.get_key_mem hi))
    (fun _ => isName_of_mem_moduleKeys (h.get_key_mem hj)) he)

theorem Built.findKey?_get (h : Built (ModuleRoot.ofPaths rootPaths) classes t) {i : Nat}
    (hi : i < t.size) :
    t.findKey? (t.get i).key.text = some (t.get i) := by
  -- The search stops at the first node with the text, so no earlier one may have it.
  have hfirst : ∀ j < i, (t.get j).key.text ≠ (t.get i).key.text := fun j hji he =>
    hji.ne (h.key_text_inj (hji.trans hi) hi he)
  have hfind : (List.range t.size).find? (fun j => (t.get j).key.text = (t.get i).key.text) =
      some i := by
    rw [List.find?_range_eq_some]
    exact ⟨decide_eq_true rfl, List.mem_range.2 hi, fun j hji => by simpa using hfirst j hji⟩
  rw [ModuleTree.findKey?, ← Array.find?_toList, t.toList_eq_map, List.find?_map]
  exact congrArg (Option.map t.get) hfind

end Built

end CodeAtlas
