import CodeAtlas.Diagram.Ids
import CodeAtlas.Text.Fields

namespace CodeAtlas.IdSupply

theorem underscore_not_mem_digits (n : Nat) : '_' ∉ (toString n).toList := by
  intro h
  have hmem : '_' ∈ Nat.toDigits 10 n := Nat.toList_repr ▸ h
  have hdigit := Nat.isDigit_of_mem_toDigits (by decide) (Nat.le_refl 10) hmem
  exact absurd hdigit (by decide)

theorem fields_classText (module file n : Nat) :
    Text.fields '_' (classText module file n).toList =
      ['c' :: (toString module).toList, (toString file).toList, (toString n).toList] := by
  have htext : (classText module file n).toList = ('c' :: (toString module).toList) ++
      '_' :: ((toString file).toList ++ '_' :: (toString n).toList) := by
    simp [classText]
  have hmodule : '_' ∉ 'c' :: (toString module).toList := by
    have hdigits := underscore_not_mem_digits module
    rw [List.mem_cons, not_or]
    exact ⟨by decide, hdigits⟩
  rw [htext, Text.fields_append_cons hmodule,
    Text.fields_append_cons (underscore_not_mem_digits file),
    Text.fields_of_not_mem (underscore_not_mem_digits n)]

theorem toString_inj {m n : Nat} (h : (toString m).toList = (toString n).toList) : m = n := by
  have hnumber := congrArg (fun ds => Nat.ofDigitChars 10 ds 0) h
  simpa [Nat.toString_eq_ofList_toDigits] using hnumber

theorem classText_inj {module file n module' file' n' : Nat} :
    classText module file n = classText module' file' n' ↔
      module = module' ∧ file = file' ∧ n = n' := by
  constructor
  · intro h
    have hfields := fields_classText module file n
    rw [h, fields_classText] at hfields
    simp only [List.cons.injEq, and_true, true_and] at hfields
    obtain ⟨hmodule, hfile, hn⟩ := hfields
    exact ⟨(toString_inj hmodule).symm, (toString_inj hfile).symm, (toString_inj hn).symm⟩
  · rintro ⟨rfl, rfl, rfl⟩
    rfl

theorem moduleText_inj {m n : Nat} : moduleText m = moduleText n ↔ m = n := by
  constructor
  · intro h
    have hlist := congrArg String.toList h
    simp only [moduleText, String.toList_append, List.append_cancel_left_eq] at hlist
    exact toString_inj hlist
  · rintro rfl
    rfl

theorem moduleText_ne_classText (m module file n : Nat) :
    moduleText m ≠ classText module file n := by
  intro h
  have hlist := congrArg (fun s => s.toList.head?) h
  simp [moduleText, classText] at hlist

end CodeAtlas.IdSupply
