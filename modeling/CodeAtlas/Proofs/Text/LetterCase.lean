import Mathlib.Data.List.Basic
import CodeAtlas.Text.Case

/-!
# Lowering letters

Lowering a text twice is lowering it once: what the table of small letters leads to has no small
form other than itself. Lowering makes no sign such as a slash and leaves no text empty. Names that
are joined with slashes are lowered one by one.
-/
namespace CodeAtlas.Text

namespace CaseRun

def misses (r s : CaseRun) : Bool :=
  r.other r.last < s.first || s.last < r.other r.first ||
    (s.stride == 2 && (r.stride == 2 || r.first == r.last) && (r.other r.first + s.first) % 2 == 1)

/-- Whether the run leads to characters past ASCII, capital sigma and dotted capital I apart. -/
def landsWell (r : CaseRun) : Bool :=
  0 ≤ r.first + r.shift && 128 ≤ r.other r.first &&
    (r.other r.last < 0xD800 || 0xE000 ≤ r.other r.first && r.other r.last < 0x110000) &&
    (r.other r.last < 0x3A3 || 0x3A3 < r.other r.first) &&
    (r.other r.last < 0x130 || 0x130 < r.other r.first)

theorem other_bounds {r : CaseRun} {n : Nat} (h : r.covers n = true) :
    r.other r.first ≤ r.other n ∧ r.other n ≤ r.other r.last := by
  simp only [covers, Bool.and_eq_true, decide_eq_true_eq] at h
  simp only [other]
  omega

theorem not_covers_other {r s : CaseRun} {n : Nat} (hm : r.misses s = true)
    (hr : 0 ≤ r.first + r.shift) (hn : r.covers n = true) : s.covers (r.other n) = false := by
  obtain ⟨hlo, hhi⟩ := other_bounds hn
  simp only [covers, Bool.and_eq_true, decide_eq_true_eq, beq_iff_eq] at hn
  simp only [misses, Bool.or_eq_true, Bool.and_eq_true, decide_eq_true_eq, beq_iff_eq] at hm
  by_contra hs
  simp only [covers, Bool.not_eq_false, Bool.and_eq_true, decide_eq_true_eq, beq_iff_eq] at hs
  rcases hm with (hm | hm) | ⟨⟨hstride, hstep⟩, hodd⟩
  · omega
  · omega
  · have hpar : r.other n % 2 = r.other r.first % 2 := by
      rcases hstep with hstep | hstep
      · rw [hstep] at hn
        simp only [other]
        omega
      · rw [show n = r.first by omega]
    rw [hstride] at hs
    omega

end CaseRun

/-- The run of the Kelvin sign, the only one that leads to ASCII. -/
def kelvinRun : CaseRun := ⟨0x212A, 0x212A, 1, -8383⟩

theorem lowerRuns_miss : (lowerRuns.all fun r => lowerRuns.all r.misses) = true := by
  decide +kernel

theorem lowerRuns_landWell :
    (lowerRuns.all fun r => r = kelvinRun || r.landsWell) = true := by
  decide +kernel

theorem toNat_ofNat {n : Nat} (h : n.isValidChar) : (Char.ofNat n).toNat = n := by
  rw [Char.ofNat, dif_pos h]
  rfl

def IsLow (c : Char) : Prop := lowerChar c = [c] ∧ c ≠ 'Σ'

/-- What a run leads to, but for the letter k, is past ASCII and in no run. -/
theorem other_cases {r : CaseRun} (hr : r ∈ lowerRuns) {n : Nat} (hn : r.covers n = true) :
    Char.ofNat (r.other n) = 'k' ∨
      128 ≤ (Char.ofNat (r.other n)).toNat ∧ IsLow (Char.ofNat (r.other n)) := by
  have hland := List.all_eq_true.1 lowerRuns_landWell r hr
  have hmiss := List.all_eq_true.1 (List.all_eq_true.1 lowerRuns_miss r hr)
  rcases Bool.or_eq_true _ _ ▸ hland with hk | hland
  · have hk := of_decide_eq_true hk
    subst hk
    simp only [CaseRun.covers, Bool.and_eq_true, decide_eq_true_eq] at hn
    have hn : n = 0x212A := Nat.le_antisymm hn.1.2 hn.1.1
    exact Or.inl (by rw [hn]; decide)
  · obtain ⟨hlo, hhi⟩ := CaseRun.other_bounds hn
    simp only [CaseRun.landsWell, Bool.and_eq_true, Bool.or_eq_true, decide_eq_true_eq] at hland
    obtain ⟨⟨⟨⟨hpos, hascii⟩, hvalid⟩, hsigma⟩, hdotted⟩ := hland
    have hnat : (Char.ofNat (r.other n)).toNat = r.other n := toNat_ofNat (by
      simp only [Nat.isValidChar]
      omega)
    have hlong : lowerLong.lookup (r.other n) = none := by
      simp only [lowerLong, List.lookup_cons, List.lookup_nil]
      rw [beq_false_of_ne (by omega)]
    have hfind : (lowerRuns.find? fun s => s.covers (r.other n)) = none := by
      simp only [List.find?_eq_none, Bool.not_eq_true]
      exact fun s hs => CaseRun.not_covers_other (hmiss s hs) hpos hn
    refine Or.inr ⟨by omega, ?_, fun he => ?_⟩
    · rw [lowerChar, hnat, if_neg (by omega), otherCase?, hnat, hlong, hfind]
      rfl
    · have hs := congrArg Char.toNat he
      rw [hnat, show 'Σ'.toNat = 0x3A3 from rfl] at hs
      omega

theorem lowerChar_cases {c d : Char} (h : d ∈ lowerChar c) :
    (c.toNat < 128 ∧ d = c.toLower) ∨ d ∈ ['i', '\u0307'] ∨
      (∃ r ∈ lowerRuns, r.covers c.toNat = true ∧ d = Char.ofNat (r.other c.toNat)) ∨
      (d = c ∧ lowerChar c = [c]) := by
  by_cases hascii : c.toNat < 128
  · exact Or.inl ⟨hascii, by simpa [lowerChar, hascii] using h⟩
  · have hlower : lowerChar c = (otherCase? lowerRuns lowerLong c).getD [c] := by
      simp [lowerChar, hascii]
    rw [hlower] at h ⊢
    unfold otherCase? at h ⊢
    split at h
    next codes hlong =>
      simp only [lowerLong, List.lookup_cons, List.lookup_nil] at hlong
      split at hlong
      · obtain rfl := Option.some.inj hlong
        exact Or.inr (Or.inl (by simpa using h))
      · simp at hlong
    next hlong =>
      cases hf : lowerRuns.find? fun r => r.covers c.toNat with
      | none => simp_all
      | some r =>
        have hc := List.find?_some hf
        refine Or.inr (Or.inr (Or.inl ⟨r, List.mem_of_find?_eq_some hf, hc, ?_⟩))
        simpa [hf] using h

def IsSign (c : Char) : Prop := c.toNat < 128 ∧ c.isLower = false

instance (c : Char) : Decidable (IsSign c) := inferInstanceAs (Decidable (_ ∧ _))

theorem toLower_low : ∀ n < 128, IsLow (Char.ofNat n).toLower ∧
    ((Char.ofNat n).toLower.isLower = false → (Char.ofNat n).toLower = Char.ofNat n) := by
  unfold IsLow
  decide +kernel

theorem isLow_of_mem_lowerChar {c d : Char} (hc : c ≠ 'Σ') (h : d ∈ lowerChar c) : IsLow d := by
  rcases lowerChar_cases h with ⟨hascii, rfl⟩ | hdotted | ⟨r, hr, hcov, rfl⟩ | ⟨rfl, hself⟩
  · simpa [Char.ofNat_toNat] using (toLower_low c.toNat hascii).1
  · simp only [List.mem_cons, List.not_mem_nil, or_false] at hdotted
    rcases hdotted with rfl | rfl <;> exact ⟨by decide +kernel, by decide⟩
  · rcases other_cases hr hcov with hk | ⟨-, hlow⟩
    · rw [hk]
      exact ⟨by decide +kernel, by decide⟩
    · exact hlow
  · exact ⟨hself, hc⟩

/-- Only a sign itself is lowered to it. -/
theorem eq_of_mem_lowerChar {c d : Char} (hd : IsSign d) (h : d ∈ lowerChar c) : c = d := by
  obtain ⟨hascii, hlower⟩ := hd
  rcases lowerChar_cases h with ⟨hc, rfl⟩ | hdotted | ⟨r, hr, hcov, rfl⟩ | ⟨rfl, -⟩
  · have hsame := (toLower_low c.toNat hc).2
    rw [Char.ofNat_toNat] at hsame
    exact (hsame hlower).symm
  · simp only [List.mem_cons, List.not_mem_nil, or_false] at hdotted
    rcases hdotted with rfl | rfl
    · exact absurd hlower (by decide)
    · exact absurd hascii (by decide)
  · rcases other_cases hr hcov with hk | ⟨hge, -⟩
    · rw [hk] at hlower
      exact absurd hlower (by decide)
    · exact absurd hascii (Nat.not_lt.2 hge)
  · rfl

theorem lowerChar_ne_nil (c : Char) : lowerChar c ≠ [] := by
  unfold lowerChar
  split
  · simp
  · unfold otherCase?
    split
    next codes hlong =>
      simp only [lowerLong, List.lookup_cons, List.lookup_nil] at hlong
      split at hlong <;> simp_all
      simp [← hlong]
    next =>
      cases lowerRuns.find? fun r => r.covers c.toNat <;> simp

theorem isLow_of_mem_lowerAfter {before cs : List Char} {d : Char}
    (h : d ∈ lowerAfter before cs) : IsLow d := by
  induction cs generalizing before with
  | nil => simp [lowerAfter] at h
  | cons c cs ih =>
    rw [lowerAfter] at h
    split at h
    · rcases List.mem_cons.1 h with rfl | h
      · split <;> exact ⟨by decide +kernel, by decide⟩
      · exact ih h
    next hc =>
      rcases List.mem_append.1 h with h | h
      · exact isLow_of_mem_lowerChar hc h
      · exact ih h

theorem lowerAfter_of_isLow (before : List Char) {cs : List Char} (h : ∀ c ∈ cs, IsLow c) :
    lowerAfter before cs = cs := by
  induction cs generalizing before with
  | nil => rfl
  | cons c cs ih =>
    obtain ⟨hself, hsigma⟩ := h c (by simp)
    rw [lowerAfter, if_neg hsigma, hself, ih _ fun d hd => h d (by simp [hd])]
    rfl

theorem lower_lower (s : String) : lower (lower s) = lower s := by
  unfold lower
  rw [String.toList_ofList, lowerAfter_of_isLow [] fun _ => isLow_of_mem_lowerAfter]

theorem small_sigma_not_sign (b : Bool) : ¬ IsSign (if b then 'ς' else 'σ') := by
  cases b <;> decide

/-- Lowering makes no sign that was not there. -/
theorem mem_of_mem_lowerAfter {before cs : List Char} {d : Char} (hd : IsSign d)
    (h : d ∈ lowerAfter before cs) : d ∈ cs := by
  induction cs generalizing before with
  | nil => simp [lowerAfter] at h
  | cons c cs ih =>
    rw [lowerAfter] at h
    split at h
    · rcases List.mem_cons.1 h with rfl | h
      · exact absurd hd (small_sigma_not_sign _)
      · exact List.mem_cons_of_mem _ (ih h)
    · rcases List.mem_append.1 h with h | h
      · simp [eq_of_mem_lowerChar hd h]
      · exact List.mem_cons_of_mem _ (ih h)

theorem mem_lowerAfter_of_isLow {before cs : List Char} {d : Char} (hd : IsLow d) (h : d ∈ cs) :
    d ∈ lowerAfter before cs := by
  induction cs generalizing before with
  | nil => simp at h
  | cons c cs ih =>
    rw [lowerAfter]
    rcases List.mem_cons.1 h with rfl | h
    · rw [if_neg hd.2, hd.1]
      exact List.mem_cons_self
    · split
      · exact List.mem_cons_of_mem _ (ih h)
      · exact List.mem_append_right _ (ih h)

theorem lowerAfter_eq_nil {before cs : List Char} : lowerAfter before cs = [] ↔ cs = [] := by
  cases cs with
  | nil => simp [lowerAfter]
  | cons c cs =>
    rw [lowerAfter]
    split <;> simp [lowerChar_ne_nil]

/-- A text is made of signs alone once it is lowered only if it was so before. -/
theorem lowerAfter_eq_of_isSign {before cs : List Char}
    (h : ∀ d ∈ lowerAfter before cs, IsSign d) : lowerAfter before cs = cs := by
  induction cs generalizing before with
  | nil => rfl
  | cons c cs ih =>
    rw [lowerAfter] at h ⊢
    split at h
    · exact absurd (h _ List.mem_cons_self) (small_sigma_not_sign _)
    next hc =>
      obtain ⟨d, hd⟩ := List.exists_mem_of_ne_nil _ (lowerChar_ne_nil c)
      have hsign := h d (List.mem_append_left _ hd)
      obtain rfl := eq_of_mem_lowerChar hsign hd
      have hself : lowerChar c = [c] := by
        rw [lowerChar, if_pos hsign.1] at hd ⊢
        rw [← List.mem_singleton.1 hd]
      rw [if_neg hc, hself, ih fun d hd => h d (List.mem_append_right _ hd)]
      rfl

theorem lower_eq_of_isSign {s : String} (h : ∀ d ∈ (lower s).toList, IsSign d) : lower s = s := by
  rw [lower, String.toList_ofList] at h
  rw [lower, lowerAfter_eq_of_isSign h, String.ofList_toList]

/-! ### Names with slashes between them -/

/-- A slash belongs to no word, so no letter behind it tells how one before it is lowered. -/
theorem meetsCased_append_slash (cs ds : List Char) :
    meetsCased (cs ++ '/' :: ds) = meetsCased cs := by
  have hslash : isCaseIgnorable '/' = false ∧ isCased '/' = false := by decide
  induction cs with
  | nil => simp [meetsCased, hslash]
  | cons c cs ih =>
    by_cases hc : isCaseIgnorable c = true
    · simpa [meetsCased, hc] using ih
    · simp [meetsCased, hc]

theorem lowerAfter_append_slash (before behind cs : List Char) :
    lowerAfter (before ++ '/' :: behind) cs = lowerAfter before cs := by
  induction cs generalizing before with
  | nil => rfl
  | cons c cs ih =>
    have hrest := ih (c :: before)
    simp only [List.cons_append] at hrest
    simp only [lowerAfter, meetsCased_append_slash, hrest]

theorem lowerAfter_slash (before cs ds : List Char) :
    lowerAfter before (cs ++ '/' :: ds) = lowerAfter before cs ++ '/' :: lowerAfter [] ds := by
  induction cs generalizing before with
  | nil =>
    have hslash : lowerChar '/' = ['/'] := by decide
    have hrest : lowerAfter ('/' :: before) ds = lowerAfter [] ds :=
      lowerAfter_append_slash [] before ds
    simp [lowerAfter, hslash, hrest]
  | cons c cs ih =>
    simp only [List.cons_append, lowerAfter, meetsCased_append_slash, ih]
    split <;> simp

theorem lower_append_slash (a b : String) : lower (a ++ "/" ++ b) = lower a ++ "/" ++ lower b := by
  apply String.toList_inj.1
  have htext : (a ++ "/" ++ b).toList = a.toList ++ '/' :: b.toList := by simp
  simp [lower, htext, lowerAfter_slash]

theorem lower_intercalate (names : List String) :
    lower ("/".intercalate names) = "/".intercalate (names.map lower) := by
  induction names with
  | nil => decide
  | cons a names ih =>
    cases names with
    | nil => simp
    | cons b names =>
      simp only [List.map_cons] at ih ⊢
      simp only [String.intercalate_cons_cons, lower_append_slash, ih]

end CodeAtlas.Text
