import CodeAtlas.Link
import CodeAtlas.Proofs.Path.Names

/-!
# Links between places

A place is told by the names that lead to it from the top. A link is followed segment by segment:
`..` leaves the last name and any other segment goes to that name below. The link between two
places leads from one to the other without leaving any directory that holds both, and no other
segments lead there in fewer steps, for each step comes nearer by one step at most.
-/
namespace CodeAtlas.Path

def step (place : List Component) : Component → List Component
  | .root => [.root]
  | .current => place
  | .parent => place.dropLast
  | .normal s => place ++ [.normal s]

/-- The place that a link leads to when it stands in a document of the directory. -/
def resolve (dir link : Path) : List Component := link.components.foldl step dir.plain

/-- The texts between the slashes of a link; the empty link has none. -/
def segments (link : String) : List String :=
  if link = "" then [] else (Text.fields '/' link.toList).map String.ofList

/-- Where segments lead from a place, unless they climb above the first `top` names of the place. -/
def follow? (top : Nat) (place : List String) : List String → Option (List String)
  | [] => some place
  | s :: segs =>
    if s = ".." then
      if place.length ≤ top then none else follow? top place.dropLast segs
    else follow? top (place ++ [s]) segs

/-- Whether a link leads from one place to another, and this in as few segments as any. -/
structure LeadsShortest (src target : List String) (link : String) : Prop where
  /-- On its way the link stays inside of every directory that holds both places. -/
  follow?_eq : ∀ {base : List String}, base <+: src → base <+: target →
    follow? base.length src (segments link) = some target
  length_le : ∀ {segs : List String}, follow? 0 src segs = some target →
    (segments link).length ≤ segs.length

/-! ### The segments of a link -/

theorem isName_of_mem_linkSegments {dir target : Path} {s : String}
    (h : s ∈ linkSegments dir.names target.names) : IsName s ∧ s ≠ "." := by
  rcases List.mem_append.1 h with h | h
  · rw [List.eq_of_mem_replicate h]
    exact ⟨⟨by decide, by decide⟩, by decide⟩
  · have h := isOrdinary_of_mem_names (List.mem_of_mem_drop h)
    exact ⟨h.isName, (isOrdinary_iff_ne.1 h).2.1⟩

theorem dot_not_mem_linkSegments (dir target : Path) :
    "." ∉ linkSegments dir.names target.names := fun hmem =>
  (isName_of_mem_linkSegments hmem).2 rfl

theorem parent_not_mem_names (p : Path) : ".." ∉ p.names := fun hmem =>
  (isOrdinary_iff_ne.1 (isOrdinary_of_mem_names hmem)).2.2 rfl

theorem components_relativeLink (dir target : Path) :
    (Path.mk (relativeLink dir target)).components =
      (linkSegments dir.names target.names).map Component.ofName :=
  components_ofNames (fun _ hs => (isName_of_mem_linkSegments hs).1) fun hmem =>
    dot_not_mem_linkSegments dir target (List.mem_of_mem_tail hmem)

theorem segments_relativeLink (dir target : Path) :
    segments (relativeLink dir target) = linkSegments dir.names target.names := by
  have hname : ∀ s ∈ linkSegments dir.names target.names, IsName s := fun s hs =>
    (isName_of_mem_linkSegments hs).1
  have hlink : relativeLink dir target = (ofNames (linkSegments dir.names target.names)).text := rfl
  rw [hlink, segments]
  split
  next hempty =>
    by_contra hne
    exact text_ofNames_ne_empty (Ne.symm hne) hname hempty
  next hfull =>
    have hne : linkSegments dir.names target.names ≠ [] := by
      intro hnil
      rw [hnil] at hfull
      exact hfull rfl
    rw [fields_ofNames hne hname, List.map_map]
    simp [Function.comp_def]

/-! ### The way of a link -/

section Follow
variable {top : Nat} {place : List String}

theorem follow?_append (segs more : List String) :
    follow? top place (segs ++ more) =
      (follow? top place segs).bind fun place => follow? top place more := by
  induction segs generalizing place with
  | nil => rfl
  | cons s segs ih =>
    rw [List.cons_append, follow?, follow?]
    split_ifs
    · rfl
    · exact ih
    · exact ih

theorem follow?_replicate {n : Nat} (h : top + n ≤ place.length) :
    follow? top place (List.replicate n "..") = some (place.take (place.length - n)) := by
  induction n generalizing place with
  | zero => simp [follow?]
  | succ n ih =>
    have hrest := @ih place.dropLast (by rw [List.length_dropLast]; omega)
    rw [List.replicate_succ, follow?, if_pos rfl, if_neg (by omega), hrest, List.length_dropLast,
      List.dropLast_eq_take, List.take_take]
    congr 2
    omega

theorem follow?_names {names : List String} (h : ".." ∉ names) :
    follow? top place names = some (place ++ names) := by
  induction names generalizing place with
  | nil => simp [follow?]
  | cons s names ih =>
    rw [List.mem_cons, not_or] at h
    rw [follow?, if_neg (Ne.symm h.1), ih h.2, List.append_assoc, List.singleton_append]

/-- A link leads up to the last directory that both places share, and then down. -/
theorem follow?_linkSegments {target : List String} (h : ".." ∉ target)
    (htop : top ≤ sharedLength place target) :
    follow? top place (linkSegments place target) = some target := by
  have hshared := (sharedLength_le place target).1
  have hdown : ".." ∉ target.drop (sharedLength place target) := fun hmem =>
    h (List.mem_of_mem_drop hmem)
  rw [linkSegments, follow?_append, follow?_replicate (by omega), Option.bind_some,
    follow?_names hdown, Nat.sub_sub_self hshared, take_sharedLength, List.take_append_drop]

/-- Segments lead the same way as the components that they stand for. -/
theorem foldl_step_of_follow? {target segs : List String} (hdot : "." ∉ segs)
    (h : follow? top place segs = some target) :
    (segs.map Component.ofName).foldl step (place.map .normal) = target.map .normal := by
  induction segs generalizing place with
  | nil =>
    obtain rfl : place = target := Option.some.inj h
    rfl
  | cons s segs ih =>
    rw [List.mem_cons, not_or] at hdot
    rw [follow?] at h
    rw [List.map_cons, List.foldl_cons]
    split_ifs at h with hup htop
    · have hstep : step (place.map .normal) (Component.ofName s) = place.dropLast.map .normal := by
        rw [hup, List.map_dropLast]
        rfl
      rw [hstep]
      exact ih hdot.2 h
    · have hstep : step (place.map .normal) (Component.ofName s) = (place ++ [s]).map .normal := by
        rw [Component.ofName, if_neg (Ne.symm hdot.1), if_neg hup, List.map_append]
        rfl
      rw [hstep]
      exact ih hdot.2 h

end Follow

theorem resolve_relativeLink {dir target : Path} (hdir : dir.Descends) (htarget : target.Descends) :
    dir.resolve ⟨relativeLink dir target⟩ = target.plain := by
  rw [resolve, components_relativeLink, hdir.plain_eq, htarget.plain_eq]
  exact foldl_step_of_follow? (dot_not_mem_linkSegments dir target)
    (follow?_linkSegments (parent_not_mem_names target) (Nat.zero_le _))

theorem length_le_sharedLength {base src target : List String} (hsrc : base <+: src)
    (htarget : base <+: target) : base.length ≤ sharedLength src target := by
  induction base generalizing src target with
  | nil => exact Nat.zero_le _
  | cons s base ih =>
    obtain ⟨src, rfl⟩ := hsrc
    obtain ⟨target, rfl⟩ := htarget
    have hrest := ih (List.prefix_append base src) (List.prefix_append base target)
    simp only [List.cons_append, sharedLength, if_true, List.length_cons]
    omega

/-! ### No way is shorter -/

section Distance
variable (place target : List String)

theorem length_linkSegments : (linkSegments place target).length =
    (place.length - sharedLength place target) + (target.length - sharedLength place target) := by
  rw [linkSegments, List.length_append, List.length_replicate, List.length_drop]

theorem sharedLength_concat (s : String) :
    sharedLength place target ≤ sharedLength (place ++ [s]) target ∧
      sharedLength (place ++ [s]) target ≤ sharedLength place target + 1 := by
  induction place generalizing target with
  | nil =>
    cases target with
    | nil => simp [sharedLength]
    | cons t target =>
      simp only [List.nil_append, sharedLength]
      split <;> omega
  | cons u place ih =>
    cases target with
    | nil => simp [sharedLength]
    | cons t target =>
      have := ih target
      simp only [List.cons_append, sharedLength]
      split <;> omega

/-- Of a place and the one a name below, neither is more than one step further from the target. -/
theorem length_linkSegments_concat (s : String) :
    (linkSegments place target).length ≤ (linkSegments (place ++ [s]) target).length + 1 ∧
      (linkSegments (place ++ [s]) target).length ≤ (linkSegments place target).length + 1 := by
  have hshared := sharedLength_concat place target s
  have hle := sharedLength_le place target
  have hle' := sharedLength_le (place ++ [s]) target
  have hlength : (place ++ [s]).length = place.length + 1 := by simp
  rw [length_linkSegments, length_linkSegments, hlength]
  rw [hlength] at hle'
  omega

theorem linkSegments_self : linkSegments target target = [] := by
  have hall : sharedLength target target = target.length :=
    Nat.le_antisymm (sharedLength_le target target).1
      (length_le_sharedLength (List.prefix_refl target) (List.prefix_refl target))
  rw [linkSegments, hall, Nat.sub_self, List.drop_length]
  rfl

end Distance

theorem length_linkSegments_le {top : Nat} {place target segs : List String}
    (h : follow? top place segs = some target) :
    (linkSegments place target).length ≤ segs.length := by
  induction segs generalizing place with
  | nil =>
    obtain rfl : place = target := Option.some.inj h
    exact Nat.le_of_eq (congrArg List.length (linkSegments_self place))
  | cons s segs ih =>
    rw [follow?] at h
    rw [List.length_cons]
    split_ifs at h with hup htop
    · have hne : place ≠ [] := by
        rintro rfl
        exact htop (Nat.zero_le top)
      have hrest := ih h
      have hstep := (length_linkSegments_concat place.dropLast target (place.getLast hne)).2
      rw [List.dropLast_concat_getLast] at hstep
      omega
    · have hrest := ih h
      have hstep := (length_linkSegments_concat place target s).1
      omega

/-- Between paths that are made of names alone, the link is right and none is shorter. -/
theorem relativeLink_leadsShortest {dir target : Path} {src names : List String}
    (hdir : dir.components = src.map .normal) (htarget : target.components = names.map .normal) :
    LeadsShortest src names (relativeLink dir target) := by
  have hsegments : segments (relativeLink dir target) = linkSegments src names := by
    rw [segments_relativeLink, names_eq hdir, names_eq htarget]
  have hup : ".." ∉ names := names_eq htarget ▸ parent_not_mem_names target
  constructor
  case follow?_eq =>
    intro base hbase hbase'
    rw [hsegments]
    exact follow?_linkSegments hup (length_le_sharedLength hbase hbase')
  case length_le =>
    intro segs hsegs
    rw [hsegments]
    exact length_linkSegments_le hsegs

/-- A name that comes again on the way to both places does not mislead. -/
theorem leadsShortest_repeatedNames :
    (Path.mk "pkg/sub/pkg").components = ["pkg", "sub", "pkg"].map .normal ∧
      (Path.mk "pkg/pkg/module.md").components = ["pkg", "pkg", "module.md"].map .normal ∧
      LeadsShortest ["pkg", "sub", "pkg"] ["pkg", "pkg", "module.md"]
        (relativeLink ⟨"pkg/sub/pkg"⟩ ⟨"pkg/pkg/module.md"⟩) := by
  have hdir : (Path.mk "pkg/sub/pkg").components = ["pkg", "sub", "pkg"].map .normal := by decide
  have htarget : (Path.mk "pkg/pkg/module.md").components =
      ["pkg", "pkg", "module.md"].map .normal := by decide
  exact ⟨hdir, htarget, relativeLink_leadsShortest hdir htarget⟩

end CodeAtlas.Path
