import Mathlib.Data.List.Induction
import CodeAtlas.Module.Tree

namespace CodeAtlas

abbrev Path.Contains (p dir : Path) : Prop := p.components <+: dir.components

theorem Path.startsWith_iff {p dir : Path} : dir.startsWith p = true ↔ p.Contains dir := by
  simp [startsWith]

/-- A path that contains the directory and has most components among the given ones that do. -/
structure Path.Innermost (ps : List Path) (dir p : Path) : Prop where
  mem : p ∈ ps
  contains : p.Contains dir
  longest : ∀ q ∈ ps, q.Contains dir → q.components.length ≤ p.components.length

namespace ModuleRoot

theorem foldl_deeper {roots : List ModuleRoot} (hne : roots ≠ []) :
    ∃ r ∈ roots, roots.foldl deeper none = some r ∧
      ∀ q ∈ roots, q.path.components.length ≤ r.path.components.length := by
  induction roots using List.reverseRecOn with
  | nil => exact absurd rfl hne
  | append_singleton roots r ih =>
    rw [List.foldl_append, List.foldl_cons, List.foldl_nil]
    cases roots with
    | nil => exact ⟨r, by simp, rfl, by simp⟩
    | cons first rest =>
      obtain ⟨b, hb, he, hmax⟩ := ih (by simp)
      rw [he, deeper]
      split
      next hle =>
        refine ⟨r, by simp, rfl, fun q hq => ?_⟩
        rcases List.mem_append.1 hq with hq | hq
        · exact Nat.le_trans (hmax q hq) hle
        · exact Nat.le_of_eq (by rw [List.mem_singleton.1 hq])
      next hlt =>
        refine ⟨b, List.mem_append_left _ hb, rfl, fun q hq => ?_⟩
        rcases List.mem_append.1 hq with hq | hq
        · exact hmax q hq
        · rw [List.mem_singleton.1 hq]
          omega

theorem innermost?_eq_none {roots : List ModuleRoot} {dir : Path}
    (h : ∀ r ∈ roots, ¬ r.path.Contains dir) : innermost? roots dir = none := by
  have hnone : roots.filter (fun r => dir.startsWith r.path) = [] := by
    simpa [List.filter_eq_nil_iff, Path.startsWith_iff] using h
  rw [innermost?, hnone, List.foldl_nil]

theorem innermost?_eq_some {roots : List ModuleRoot} {dir : Path} {r : ModuleRoot}
    (hr : r ∈ roots) (hd : r.path.Contains dir) :
    ∃ b ∈ roots, innermost? roots dir = some b ∧ b.path.Contains dir ∧
      ∀ q ∈ roots, q.path.Contains dir → q.path.components.length ≤ b.path.components.length := by
  have hmem : ∀ q, q ∈ roots.filter (fun r => dir.startsWith r.path) ↔
      q ∈ roots ∧ q.path.Contains dir := by
    simp [List.mem_filter, Path.startsWith_iff]
  obtain ⟨b, hb, he, hmax⟩ := foldl_deeper (List.ne_nil_of_mem ((hmem r).2 ⟨hr, hd⟩))
  obtain ⟨hbr, hbd⟩ := (hmem b).1 hb
  exact ⟨b, hbr, he, hbd, fun q hq hqd => hmax q ((hmem q).2 ⟨hq, hqd⟩)⟩

theorem moduleNames?_of_innermost? {roots : List ModuleRoot} {dir : Path} {r : ModuleRoot}
    (h : innermost? roots dir = some r) (hd : r.path.Contains dir) :
    moduleNames? roots dir = some (r.label ::
      (dir.components.drop r.path.components.length).filterMap Component.normal?) := by
  simp [moduleNames?, h, Path.below?, Path.startsWith_iff.2 hd]

theorem moduleNames?_label {roots : List ModuleRoot} {dir : Path} {names : List String}
    (h : moduleNames? roots dir = some names) :
    ∃ r ∈ roots, ∃ below : List Component, (∀ c ∈ below, c ∈ dir.components) ∧
      names = r.label :: below.filterMap Component.normal? := by
  by_cases hc : ∃ r ∈ roots, r.path.Contains dir
  · obtain ⟨r, hr, hd⟩ := hc
    obtain ⟨b, hb, he, hbd, -⟩ := innermost?_eq_some hr hd
    rw [moduleNames?_of_innermost? he hbd] at h
    exact ⟨b, hb, _, fun c hc => List.mem_of_mem_drop hc, (Option.some.inj h).symm⟩
  · simp only [not_exists, not_and] at hc
    simp [moduleNames?, innermost?_eq_none hc] at h

/-- Every path is kept, up to its spelling, and no other. -/
theorem mem_foldl_keepNew (ps : List Path) :
    (∀ p ∈ ps.foldl keepNew [], p ∈ ps) ∧
      ∀ p ∈ ps, ∃ q ∈ ps.foldl keepNew [], q.components = p.components := by
  induction ps using List.reverseRecOn with
  | nil => simp
  | append_singleton ps p ih =>
    obtain ⟨hsub, hall⟩ := ih
    rw [List.foldl_append, List.foldl_cons, List.foldl_nil, keepNew]
    split
    next hold =>
      obtain ⟨q, hq, hsame⟩ := List.any_eq_true.1 hold
      refine ⟨fun x hx => by simp [hsub x hx], fun x hx => ?_⟩
      rcases List.mem_append.1 hx with hx | hx
      · exact hall x hx
      · rw [List.mem_singleton.1 hx]
        exact ⟨q, hq, (of_decide_eq_true hsame).symm⟩
    · refine ⟨fun x hx => ?_, fun x hx => ?_⟩
      · rcases List.mem_cons.1 hx with rfl | hx
        · simp
        · simp [hsub x hx]
      · rcases List.mem_append.1 hx with hx | hx
        · obtain ⟨q, hq, he⟩ := hall x hx
          exact ⟨q, List.mem_cons_of_mem _ hq, he⟩
        · exact ⟨p, by simp, by rw [List.mem_singleton.1 hx]⟩

theorem mem_ofPaths {ps : List Path} {r : ModuleRoot} (h : r ∈ ofPaths ps) :
    ∃ p ∈ ps, r = ofPath p := by
  obtain ⟨p, hp, rfl⟩ := List.mem_map.1 h
  exact ⟨p, (mem_foldl_keepNew ps).1 p (List.mem_reverse.1 hp), rfl⟩

theorem exists_mem_ofPaths {ps : List Path} {p : Path} (h : p ∈ ps) :
    ∃ r ∈ ofPaths ps, r.path.components = p.components := by
  obtain ⟨q, hq, he⟩ := (mem_foldl_keepNew ps).2 p h
  exact ⟨ofPath q, List.mem_map_of_mem (List.mem_reverse.2 hq), he⟩

theorem moduleNames?_ofPaths {ps : List Path} {dir : Path} (h : ∃ q ∈ ps, q.Contains dir) :
    ∃ p, Path.Innermost ps dir p ∧ moduleNames? (ofPaths ps) dir = some ((ofPath p).label ::
      (dir.components.drop p.components.length).filterMap Component.normal?) := by
  obtain ⟨q, hq, hqd⟩ := h
  obtain ⟨r, hr, hrq⟩ := exists_mem_ofPaths hq
  have hrd : r.path.Contains dir := by rwa [Path.Contains, hrq]
  obtain ⟨b, hb, he, hbd, hmax⟩ := innermost?_eq_some hr hrd
  obtain ⟨p, hp, rfl⟩ := mem_ofPaths hb
  refine ⟨p, ⟨hp, hbd, fun x hx hxd => ?_⟩, moduleNames?_of_innermost? he hbd⟩
  obtain ⟨s, hs, hsx⟩ := exists_mem_ofPaths hx
  rw [← hsx]
  exact hmax s hs (by rwa [Path.Contains, hsx])

theorem moduleNames?_ofPaths_eq_none {ps : List Path} {dir : Path}
    (h : ∀ p ∈ ps, ¬ p.Contains dir) : moduleNames? (ofPaths ps) dir = none := by
  have hnone : innermost? (ofPaths ps) dir = none := innermost?_eq_none fun r hr => by
    obtain ⟨p, hp, rfl⟩ := mem_ofPaths hr
    exact h p hp
  simp [moduleNames?, hnone]

end ModuleRoot
end CodeAtlas
