import CodeAtlas.Proofs.Outcomes
import CodeAtlas.Proofs.Path.Names
import CodeAtlas.Settings.Check

namespace CodeAtlas

/-- Of two checks in turn both succeed. -/
theorem Except.bind_eq_ok {ε β : Type} {x : Except ε Unit} {f : Unit → Except ε β} {b : β} :
    x >>= f = .ok b ↔ x = .ok () ∧ f () = .ok b := by
  rw [Except.bind_eq_ok_iff]
  exact ⟨fun ⟨(), h⟩ => h, fun h => ⟨(), h⟩⟩

theorem checkFileName_eq_ok {field : FileNameField} {name : String} :
    checkFileName field name = .ok () ↔
      isBlankText name = false ∧ name.toList.any isPathSeparator = false := by
  unfold checkFileName
  split
  next hblank => simp [hblank]
  next hblank =>
    split
    next hseparator => simp [hseparator]
    next hseparator => simp [hblank, hseparator]

theorem isName_of_checkFileName {field : FileNameField} {name : String}
    (h : checkFileName field name = .ok ()) : IsName name := by
  obtain ⟨hblank, hseparator⟩ := checkFileName_eq_ok.1 h
  have hempty : name ≠ "" := by
    rintro rfl
    exact absurd hblank (by decide)
  have hslash : '/' ∉ name.toList := fun hmem =>
    List.any_eq_false.1 hseparator '/' hmem (by decide)
  exact ⟨hempty, hslash⟩

theorem isOrdinary_of_checkFileName {field : FileNameField} {name : String}
    (h : checkFileName field name = .ok ()) (hdots : name ∉ [".", ".."]) : IsOrdinary name :=
  isOrdinary_iff_ne.2 ⟨isName_of_checkFileName h, by simpa using hdots⟩

namespace Settings

theorem checkOutput_eq_ok {s : OutputSettings} : checkOutput s = .ok () ↔
    checkFileName .overview s.overviewFile = .ok () ∧ checkFileName .module s.moduleFile = .ok () ∧
      s.overviewFile ≠ s.moduleFile := by
  have hnames : (if s.overviewFile = s.moduleFile then throw (.settings .sameNames)
      else pure () : Except Failure Unit) = .ok () ↔ s.overviewFile ≠ s.moduleFile := by
    by_cases he : s.overviewFile = s.moduleFile
    · simp [he, throw, throwThe, MonadExceptOf.throw]
    · simp [he, pure, Except.pure]
  unfold checkOutput
  rw [Except.bind_eq_ok, Except.bind_eq_ok, hnames]

theorem check_eq_ok {s : Settings} : s.check = .ok () ↔
    checkDiscovery s.discovery = .ok () ∧ checkDiagrams s.diagrams = .ok () ∧
      checkOutput s.output = .ok () := by
  unfold check
  rw [Except.bind_eq_ok, Except.bind_eq_ok]

end Settings
end CodeAtlas
