import Mathlib.Data.List.Induction
import CodeAtlas.Proofs.Text.LetterCase
import CodeAtlas.Registry

/-!
# Finding the analyzer for an extension

The map of extensions tells the language of the analyzer that was added last for an extension, in
whatever letters it spells it. The analyzer itself is found by extensions in small letters only. So
the two part ways where an analyzer spells the extension with capital letters, and nowhere else.
-/
namespace CodeAtlas

theorem lookup_filter_append {α β : Type} [DecidableEq α] (kept : List (α × β)) (m : α) (v : β)
    (k : α) : (kept.filter (fun old => old.1 ≠ m) ++ [(m, v)]).lookup k =
      if k = m then some v else kept.lookup k := by
  induction kept with
  | nil =>
    rw [List.filter_nil, List.nil_append, List.lookup_cons]
    by_cases hk : k = m <;> simp [beq_eq_false_iff_ne.2, hk]
  | cons old kept ih => grind

/-- What is found first by a weak condition is found first by a stronger one, if it meets that. -/
theorem find?_eq_some_of_imp {α : Type} {p q : α → Bool} (h : ∀ a, p a = true → q a = true)
    {xs : List α} {a : α} (hq : xs.find? q = some a) (hp : p a = true) : xs.find? p = some a := by
  rw [List.find?_eq_some_iff_append] at hq ⊢
  obtain ⟨-, before, after, hxs, hbefore⟩ := hq
  refine ⟨hp, before, after, hxs, fun b hb => ?_⟩
  have hnot := hbefore b hb
  cases hb' : p b with
  | false => rfl
  | true => simp [h b hb'] at hnot

namespace Analyzer

/-- Whether an analyzer is for an extension, given in small letters; it may spell it in others. -/
def claims (a : Analyzer) (ext : String) : Bool := a.extensions.any fun e => Text.lower e = ext

/-- Whether an analyzer is for an extension that it does not spell in small letters alone. -/
def Capitalizes (a : Analyzer) (ext : String) : Prop :=
  ∃ e ∈ a.extensions, e ≠ Text.lower e ∧ Text.lower e = ext

theorem claims_of_contains {a : Analyzer} {ext : String}
    (h : a.extensions.contains (Text.lower ext) = true) : a.claims (Text.lower ext) = true :=
  List.any_eq_true.2 ⟨Text.lower ext, List.contains_iff_mem.1 h, decide_eq_true (Text.lower_lower ext)⟩

theorem capitalizes_of_claims {a : Analyzer} {ext : String} (h : a.claims ext = true)
    (hnot : a.extensions.contains ext = false) : a.Capitalizes ext := by
  obtain ⟨e, he, hlower⟩ := List.any_eq_true.1 h
  obtain rfl := of_decide_eq_true hlower
  refine ⟨e, he, fun hsmall => ?_, rfl⟩
  rw [← hsmall, List.contains_iff_mem.2 he] at hnot
  exact Bool.noConfusion hnot

end Analyzer

namespace Registry

theorem lookup_foldl_extensions (kept : List (String × Language)) (a : Analyzer) (ext : String) :
    ((a.extensions.map fun e => (Text.lower e, a.language)).foldl
        (fun kept e => kept.filter (fun k => k.1 ≠ e.1) ++ [e]) kept).lookup ext =
      if a.claims ext then some a.language else kept.lookup ext := by
  rw [Analyzer.claims]
  induction a.extensions generalizing kept with
  | nil => rfl
  | cons e exts ih =>
    rw [List.map_cons, List.foldl_cons, ih, lookup_filter_append, List.any_cons]
    by_cases he : Text.lower e = ext
    · simp [he]
    · simp [he, Ne.symm he]

/-- The map tells the language of the analyzer that was added last for an extension. -/
theorem lookup_extensionMap (r : Registry) (ext : String) : r.extensionMap.lookup ext =
    (r.analyzers.reverse.find? fun a => a.claims ext).map (·.language) := by
  rw [extensionMap]
  induction r.analyzers using List.reverseRecOn with
  | nil => rfl
  | append_singleton as a ih =>
    rw [List.flatMap_append, List.foldl_append, List.flatMap_singleton, lookup_foldl_extensions, ih,
      List.reverse_append, List.reverse_singleton, List.singleton_append, List.find?_cons]
    cases a.claims ext <;> rfl

theorem analyzers_foldl_register (r : Registry) (added : List Analyzer) :
    (added.foldl register r).analyzers = r.analyzers ++ added := by
  induction added generalizing r with
  | nil => exact (List.append_nil _).symm
  | cons a added ih => rw [List.foldl_cons, ih, register, List.append_assoc, List.singleton_append]

theorem not_capitalizes_default {a : Analyzer} (ha : a ∈ default.analyzers) (ext : String) :
    ¬ a.Capitalizes ext := by
  have hsmall : ∀ a ∈ default.analyzers, ∀ e ∈ a.extensions, e = Text.lower e := by
    decide +kernel
  rintro ⟨e, he, hne, -⟩
  exact hne (hsmall a ha e he)

/-- The map knows every extension that an analyzer is found for. -/
theorem find?_eq_or_capitalizes {r : Registry} {p : Path} {ext : String}
    (hext : p.extension? = some ext) :
    r.find? p = (r.analyzers.reverse.find? fun a => a.claims (Text.lower ext)) ∨
      ∃ a ∈ r.analyzers, a.Capitalizes (Text.lower ext) ∧
        r.extensionMap.lookup (Text.lower ext) = some a.language := by
  have hfind : r.find? p =
      r.analyzers.reverse.find? fun a => a.extensions.contains (Text.lower ext) := by
    rw [find?, hext]
  have himp : ∀ a : Analyzer, a.extensions.contains (Text.lower ext) = true →
      a.claims (Text.lower ext) = true := fun a => a.claims_of_contains
  rw [hfind, lookup_extensionMap]
  cases hclaims : r.analyzers.reverse.find? fun a => a.claims (Text.lower ext) with
  | none =>
    left
    rw [List.find?_eq_none] at hclaims ⊢
    exact fun a ha hcontains => hclaims a ha (himp a hcontains)
  | some a =>
    -- The map takes `a`, and so does the look-up unless `a` spells the extension otherwise only.
    cases hcontains : a.extensions.contains (Text.lower ext) with
    | true => exact .inl (find?_eq_some_of_imp himp hclaims hcontains)
    | false =>
      have ha := List.mem_of_find?_eq_some hclaims
      have hclaim := List.find?_some hclaims
      exact .inr ⟨a, List.mem_reverse.1 ha, a.capitalizes_of_claims hclaim hcontains, rfl⟩

/-- The map of extensions and the look-up of analyzers agree, and so a file is read by an analyzer
of its language, unless an analyzer was added for the extension in capital letters. -/
theorem dispatch_agrees {start : Registry} (hstart : start ∈ [default, empty])
    (added : List Analyzer) {p : Path} {ext : String} (hext : p.extension? = some ext) :
    ((added.foldl register start).extensionMap.lookup (Text.lower ext) =
        ((added.foldl register start).find? p).map (·.language) ∧
      ∀ l, (added.foldl register start).extensionMap.lookup (Text.lower ext) = some l →
        ∃ a ∈ (added.foldl register start).analyzers, a.language = l ∧
          ∀ text, (added.foldl register start).analyze ⟨p, l, text⟩ = a.analyze ⟨p, l, text⟩) ∨
    ∃ a ∈ added, a.Capitalizes (Text.lower ext) ∧
      (added.foldl register start).extensionMap.lookup (Text.lower ext) = some a.language := by
  rcases find?_eq_or_capitalizes (r := added.foldl register start) hext with
    hfind | ⟨a, ha, hcapitals, hlookup⟩
  · left
    have hlookup : (added.foldl register start).extensionMap.lookup (Text.lower ext) =
        ((added.foldl register start).find? p).map (·.language) := by
      rw [lookup_extensionMap, hfind]
    refine ⟨hlookup, fun l hl => ?_⟩
    rw [hlookup, Option.map_eq_some_iff] at hl
    obtain ⟨a, ha, hlanguage⟩ := hl
    have hmem : a ∈ (added.foldl register start).analyzers :=
      List.mem_reverse.1 (List.mem_of_find?_eq_some (hfind.symm.trans ha))
    refine ⟨a, hmem, hlanguage, fun text => ?_⟩
    rw [analyze, ha]
    rfl
  · refine .inr ⟨a, ?_, hcapitals, hlookup⟩
    rw [analyzers_foldl_register, List.mem_append] at ha
    apply ha.resolve_left
    intro hmem
    rcases List.mem_pair.1 hstart with rfl | rfl
    · exact not_capitalizes_default hmem _ hcapitals
    · exact absurd hmem List.not_mem_nil

/-- `a.PYX` is read by the analyzer that was added last for `pyx`. -/
theorem dispatch_agrees_pyx :
    let slow : Analyzer := ⟨.python, ["pyx"], fun _ => .empty⟩
    let fast : Analyzer := ⟨.typeScript, ["PY", "pyx"], fun _ => .empty⟩
    let r := [slow, fast].foldl register default
    default ∈ [default, empty] ∧ (Path.mk "/src/a.PYX").extension? = some "PYX" ∧
      ((r.extensionMap.lookup (Text.lower "PYX") =
          (r.find? ⟨"/src/a.PYX"⟩).map (·.language) ∧
        ∀ l, r.extensionMap.lookup (Text.lower "PYX") = some l →
          ∃ a ∈ r.analyzers, a.language = l ∧
            ∀ text, r.analyze ⟨⟨"/src/a.PYX"⟩, l, text⟩ = a.analyze ⟨⟨"/src/a.PYX"⟩, l, text⟩) ∨
      ∃ a ∈ [slow, fast], a.Capitalizes (Text.lower "PYX") ∧
        r.extensionMap.lookup (Text.lower "PYX") = some a.language) := by
  intro slow fast r
  have hext : (Path.mk "/src/a.PYX").extension? = some "PYX" := by decide +kernel
  exact ⟨List.mem_cons_self, hext, dispatch_agrees List.mem_cons_self [slow, fast] hext⟩

/-- Where analyzers were added for `js` and for `JS`, the map tells the language of the second and
`a.js` is read by the first. -/
theorem not_forall_lookup_eq_find? :
    (¬ ∀ (added : List Analyzer) (p : Path) (ext : String), p.extension? = some ext →
      (added.foldl register default).extensionMap.lookup (Text.lower ext) =
        ((added.foldl register default).find? p).map (·.language)) ∧
    ¬ ∀ (added : List Analyzer) (p : Path) (ext : String) (l : Language),
      p.extension? = some ext →
      (added.foldl register default).extensionMap.lookup (Text.lower ext) = some l →
      ∃ a ∈ (added.foldl register default).analyzers, a.language = l ∧ ∀ text,
        (added.foldl register default).analyze ⟨p, l, text⟩ = a.analyze ⟨p, l, text⟩ := by
  let small : Analyzer := ⟨.javaScript, ["js"], fun f => ⟨[⟨"X", f.path, 1, 0, 1, 1⟩], []⟩⟩
  let capital : Analyzer := ⟨.python, ["JS"], fun _ => .empty⟩
  have hext : (Path.mk "a.js").extension? = some "js" := by decide +kernel
  constructor
  · intro h
    have hlookup := h [small, capital] ⟨"a.js"⟩ "js" hext
    revert hlookup
    decide +kernel
  · intro h
    obtain ⟨a, ha, hlanguage, hanalyze⟩ :=
      h [small, capital] ⟨"a.js"⟩ "js" .python hext (by decide +kernel)
    have hnone : a.analyze ⟨⟨"a.js"⟩, .python, ""⟩ = .empty := by
      simp only [List.foldl_cons, List.foldl_nil, register, default, List.cons_append,
        List.nil_append, List.mem_cons, List.not_mem_nil, or_false] at ha
      rcases ha with rfl | rfl | rfl | rfl | rfl
      · decide +kernel
      · exact absurd hlanguage (by decide)
      · exact absurd hlanguage (by decide)
      · exact absurd hlanguage (by decide)
      · rfl
    have hone := (hanalyze "").trans hnone
    revert hone
    decide +kernel

end Registry
end CodeAtlas
