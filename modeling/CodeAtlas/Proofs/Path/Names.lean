import Mathlib.Data.List.Induction
import CodeAtlas.Proofs.Path.Join

namespace CodeAtlas

def IsName (s : String) : Prop := s ≠ "" ∧ '/' ∉ s.toList

def IsOrdinary (s : String) : Prop := (Path.mk s).components = [.normal s]

instance (s : String) : Decidable (IsOrdinary s) := inferInstanceAs (Decidable (_ = _))

/-- The component that a text between slashes stands for, `.` being at the front. -/
def Component.ofName (s : String) : Component :=
  if s = "." then .current else if s = ".." then .parent else .normal s

theorem ofField?_of_isName {isFirst : Bool} {s : String} (h : IsName s)
    (hfirst : s = "." → isFirst = true) :
    Component.ofField? isFirst s.toList = some (Component.ofName s) := by
  have htext : s = String.ofList s.toList := String.ofList_toList.symm
  unfold Component.ofField?
  split
  next hnil => exact absurd (String.toList_eq_nil_iff.1 hnil) h.1
  next hdot =>
    have hs : s = "." := by rw [htext, hdot]
    rw [hfirst hs, hs]
    rfl
  next hdots =>
    have hs : s = ".." := by rw [htext, hdots]
    rw [hs]
    rfl
  next hdot hdots =>
    have hcurrent : s ≠ "." := fun hs => hdot (by rw [hs]; rfl)
    have hparent : s ≠ ".." := fun hs => hdots (by rw [hs]; rfl)
    rw [Component.ofName, if_neg hcurrent, if_neg hparent, String.ofList_toList]

theorem ofField?_eq_normal {isFirst : Bool} {field : List Char} {s : String}
    (h : Component.ofField? isFirst field = some (.normal s)) : s = String.ofList field := by
  unfold Component.ofField? at h
  split at h
  · simp at h
  · split at h <;> simp at h
  · simp at h
  · exact (Component.normal.inj (Option.some.inj h)).symm

/-- A component that is a name is spelled by a field that is neither `.` nor `..`. -/
theorem isName_of_ofField? {isFirst : Bool} {field : List Char} {s : String} (hslash : '/' ∉ field)
    (h : Component.ofField? isFirst field = some (.normal s)) :
    IsName s ∧ Component.ofName s = .normal s := by
  obtain rfl := ofField?_eq_normal h
  have hnil : field ≠ [] := by
    rintro rfl
    simp [Component.ofField?] at h
  have hcurrent : String.ofList field ≠ "." := by
    intro he
    obtain rfl : field = ['.'] := by simpa using congrArg String.toList he
    cases isFirst <;> simp [Component.ofField?] at h
  have hparent : String.ofList field ≠ ".." := by
    intro he
    obtain rfl : field = ['.', '.'] := by simpa using congrArg String.toList he
    simp [Component.ofField?] at h
  refine ⟨⟨fun he => hnil (String.ofList_eq_empty_iff.1 he), by rwa [String.toList_ofList]⟩, ?_⟩
  rw [Component.ofName, if_neg hcurrent, if_neg hparent]

namespace Path

theorem exists_field_of_mem_bodyComponents {isFirst : Bool} {fields : List (List Char)} {s : String}
    (h : .normal s ∈ bodyComponents isFirst fields) :
    ∃ f ∈ fields, ∃ first, Component.ofField? first f = some (.normal s) := by
  induction fields generalizing isFirst with
  | nil => simp [bodyComponents] at h
  | cons f fields ih =>
    rw [bodyComponents_cons] at h
    rcases List.mem_append.1 h with h | h
    · exact ⟨f, List.mem_cons_self, isFirst, Option.mem_toList.1 h⟩
    · obtain ⟨g, hg, first, hs⟩ := ih h
      exact ⟨g, List.mem_cons_of_mem f hg, first, hs⟩

theorem bodyComponents_map_toList {isFirst : Bool} {names : List String}
    (h : ∀ s ∈ names, IsName s) (hdot : "." ∉ names.tail)
    (hfirst : names.head? = some "." → isFirst = true) :
    bodyComponents isFirst (names.map String.toList) = names.map Component.ofName := by
  induction names generalizing isFirst with
  | nil => rfl
  | cons s names ih =>
    have hs := ofField?_of_isName (h s List.mem_cons_self) fun he => hfirst (by rw [he]; rfl)
    have hrest : bodyComponents false (names.map String.toList) = names.map Component.ofName := by
      apply ih fun t ht => h t (List.mem_cons_of_mem s ht)
      · exact fun hmem => hdot (List.mem_of_mem_tail hmem)
      · intro hhead
        exact absurd (List.mem_of_head? hhead) hdot
    rw [List.map_cons, bodyComponents, hs, hrest, List.map_cons]

theorem fields_ofNames {names : List String} (hne : names ≠ []) (h : ∀ s ∈ names, IsName s) :
    Text.fields '/' (ofNames names).text.toList = names.map String.toList := by
  rw [ofNames, String.toList_intercalate]
  refine Text.fields_intercalate (by simpa using hne) fun f hf => ?_
  obtain ⟨s, hs, rfl⟩ := List.mem_map.1 hf
  exact (h s hs).2

theorem components_ofNames {names : List String} (h : ∀ s ∈ names, IsName s)
    (hdot : "." ∉ names.tail) : (ofNames names).components = names.map Component.ofName := by
  cases names with
  | nil => decide
  | cons s names =>
    have hfields := fields_ofNames (List.cons_ne_nil s names) h
    have hs : s.toList ≠ [] := fun hnil =>
      (h s List.mem_cons_self).1 (String.toList_eq_nil_iff.1 hnil)
    have hrelative : (ofNames (s :: names)).isAbsolute = false := by
      rw [Bool.eq_false_iff]
      intro habs
      rw [isAbsolute_iff, hfields] at habs
      exact hs (by simpa using habs.1)
    rw [components, hrelative, hfields]
    exact bodyComponents_map_toList h hdot fun _ => rfl

theorem nil_not_mem_map_toList {names : List String} (h : ∀ s ∈ names, IsName s) :
    [] ∉ names.map String.toList := by
  intro hmem
  obtain ⟨s, hs, hnil⟩ := List.mem_map.1 hmem
  exact (h s hs).1 (String.toList_eq_nil_iff.1 hnil)

theorem text_ofNames_ne_empty {names : List String} (hne : names ≠ [])
    (h : ∀ s ∈ names, IsName s) : (ofNames names).text ≠ "" := by
  intro he
  have hfields := fields_ofNames hne h
  rw [he] at hfields
  exact nil_not_mem_map_toList h (by simp [← hfields, Text.fields])

theorem ofNames_inj {names names' : List String} (h : ∀ s ∈ names, IsName s)
    (h' : ∀ s ∈ names', IsName s) (he : (ofNames names).text = (ofNames names').text) :
    names = names' := by
  cases names with
  | nil =>
    cases names' with
    | nil => rfl
    | cons t names' => exact absurd he.symm (text_ofNames_ne_empty (List.cons_ne_nil t names') h')
  | cons s names =>
    have hnil : names' ≠ [] := by
      rintro rfl
      exact text_ofNames_ne_empty (List.cons_ne_nil s names) h he
    have hfields := fields_ofNames (List.cons_ne_nil s names) h
    rw [he, fields_ofNames hnil h'] at hfields
    exact (List.map_inj_right fun _ _ => String.toList_inj.1).1 hfields.symm

theorem exists_field_of_mem_components {p : Path} {s : String} (h : .normal s ∈ p.components) :
    ∃ f ∈ Text.fields '/' p.text.toList, ∃ first, Component.ofField? first f = some (.normal s) := by
  rw [components_eq_bodyComponents] at h
  rcases List.mem_append.1 h with h | h
  · split at h <;> simp at h
  · exact exists_field_of_mem_bodyComponents h

theorem isName_of_mem_components {p : Path} {s : String} (h : .normal s ∈ p.components) :
    IsName s ∧ Component.ofName s = .normal s := by
  obtain ⟨f, hf, first, hs⟩ := exists_field_of_mem_components h
  exact isName_of_ofField? (Text.not_mem_of_mem_fields hf) hs

theorem subset_of_mem_names {p : Path} {s : String} (h : s ∈ p.names) :
    s.toList ⊆ p.text.toList := by
  obtain ⟨c, hc, hs⟩ := List.mem_filterMap.1 h
  obtain rfl := Component.normal?_eq_some.1 hs
  obtain ⟨f, hf, first, hs⟩ := exists_field_of_mem_components hc
  rw [ofField?_eq_normal hs, String.toList_ofList]
  exact Text.subset_of_mem_fields hf

end Path

theorem isOrdinary_iff {s : String} : IsOrdinary s ↔ IsName s ∧ Component.ofName s = .normal s := by
  constructor
  · intro h
    rw [IsOrdinary] at h
    exact Path.isName_of_mem_components (p := ⟨s⟩) (by simp [h])
  · rintro ⟨hname, hof⟩
    have hs : (Path.ofNames [s]).components = [s].map Component.ofName :=
      Path.components_ofNames (by simpa using hname) (by simp)
    rw [List.map_singleton, hof] at hs
    rwa [Path.ofNames, String.intercalate_singleton] at hs

theorem Path.isOrdinary_of_mem_components {p : Path} {s : String} (h : .normal s ∈ p.components) :
    IsOrdinary s :=
  isOrdinary_iff.2 (isName_of_mem_components h)

theorem IsOrdinary.isName {s : String} (h : IsOrdinary s) : IsName s := (isOrdinary_iff.1 h).1

theorem IsOrdinary.isTail {s : String} (h : IsOrdinary s) : (Path.mk s).IsTail := by
  intro c hc
  rw [IsOrdinary] at h
  rw [h, List.head?_cons, Option.mem_some_iff] at hc
  subst hc
  exact ⟨by simp, by simp⟩

theorem IsOrdinary.ofName_eq {s : String} (h : IsOrdinary s) : Component.ofName s = .normal s :=
  (isOrdinary_iff.1 h).2

theorem isOrdinary_iff_ne {s : String} : IsOrdinary s ↔ IsName s ∧ s ≠ "." ∧ s ≠ ".." := by
  rw [isOrdinary_iff, Component.ofName]
  by_cases hdot : s = "."
  · simp [hdot]
  · by_cases hdots : s = ".."
    · simp [hdots]
    · simp [hdot, hdots]

/-! ### Paths that lead down -/

namespace Path

def plain (p : Path) : List Component := p.components.filter (· ≠ .current)

def Descends (p : Path) : Prop := ∀ c ∈ p.components, c = .current ∨ ∃ s, c = .normal s

theorem Descends.isAbsolute {p : Path} (h : p.Descends) : p.isAbsolute = false := by
  rw [Bool.eq_false_iff]
  intro habs
  have hroot : .root ∈ p.components := by
    rw [components, habs]
    exact List.mem_cons_self
  simpa using h .root hroot

theorem Descends.plain_eq {p : Path} (h : p.Descends) : p.plain = p.names.map .normal := by
  unfold Descends at h
  rw [plain, names]
  generalize p.components = cs at h
  induction cs with
  | nil => rfl
  | cons c cs ih =>
    have hrest := ih fun d hd => h d (List.mem_cons_of_mem c hd)
    rcases h c List.mem_cons_self with rfl | ⟨s, rfl⟩
    · rw [List.filterMap_cons_none rfl, ← hrest]
      rfl
    · have hs : (Component.normal s).normal? = some s := rfl
      rw [List.filterMap_cons_some hs, List.map_cons, ← hrest]
      rfl

theorem names_eq {p : Path} {names : List String} (h : p.components = names.map .normal) :
    p.names = names := by
  rw [Path.names, h, List.filterMap_map]
  exact List.filterMap_some

theorem isOrdinary_of_mem_names {p : Path} {s : String} (h : s ∈ p.names) : IsOrdinary s := by
  obtain ⟨c, hc, hs⟩ := List.mem_filterMap.1 h
  obtain rfl := Component.normal?_eq_some.1 hs
  exact isOrdinary_of_mem_components hc

end Path
end CodeAtlas
