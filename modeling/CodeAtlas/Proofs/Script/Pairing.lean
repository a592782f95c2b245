import CodeAtlas.Proofs.Text.Bytes
import CodeAtlas.Script.Brace

/-!
# Pairing braces

The one pass over a text that keeps the open braces on a stack agrees with counting: a brace is
paired with the first one at which a counter that starts with it comes down to zero, whatever
closes too much before it and whatever stays open around it.
-/
namespace CodeAtlas.Script

/-! ### Counting braces -/

def openAfter (depth : Nat) (c : Char) : Nat :=
  if c = '{' then depth + 1 else if c = '}' then depth - 1 else depth

/-- The first offset at which no brace is open, `depth` of them being open before the text. -/
def closeFrom? (offset depth : Nat) : List Char → Option Nat
  | [] => none
  | c :: rest =>
    if openAfter depth c = 0 then some offset
    else closeFrom? (offset + c.utf8Size) (openAfter depth c) rest

def Place.close? (p : Place) : Option Nat := closeFrom? p.offset 0 p.rest

theorem closeFrom?_open (offset depth : Nat) (rest : List Char) :
    closeFrom? offset depth ('{' :: rest) = closeFrom? (offset + 1) (depth + 1) rest := by
  have hopen : openAfter depth '{' = depth + 1 := rfl
  have hsize : '{'.utf8Size = 1 := by decide
  rw [closeFrom?, hopen, if_neg (Nat.succ_ne_zero depth), hsize]

theorem closeFrom?_close (offset depth : Nat) (rest : List Char) :
    closeFrom? offset (depth + 1) ('}' :: rest) =
      if depth = 0 then some offset else closeFrom? (offset + 1) depth rest := by
  have hclose : openAfter (depth + 1) '}' = depth := rfl
  have hsize : '}'.utf8Size = 1 := by decide
  rw [closeFrom?, hclose, hsize]

theorem closeFrom?_other {c : Char} (ho : c ≠ '{') (hc : c ≠ '}') (offset depth : Nat)
    (rest : List Char) :
    closeFrom? offset (depth + 1) (c :: rest) =
      closeFrom? (offset + c.utf8Size) (depth + 1) rest := by
  have hsame : openAfter (depth + 1) c = depth + 1 := by simp [openAfter, ho, hc]
  rw [closeFrom?, hsame, if_neg (Nat.succ_ne_zero depth)]

/-- Where the count comes down to zero there stands a closing brace. -/
theorem closeFrom?_eq_some {offset depth n : Nat} {cs : List Char}
    (h : closeFrom? offset (depth + 1) cs = some n) :
    ∃ inner rest, cs = inner ++ '}' :: rest ∧ n = offset + Text.byteSize inner := by
  induction cs generalizing offset depth with
  | nil => simp [closeFrom?] at h
  | cons c cs ih =>
    have hstep : ∀ depth', closeFrom? (offset + c.utf8Size) (depth' + 1) cs = some n →
        ∃ inner rest, c :: cs = inner ++ '}' :: rest ∧ n = offset + Text.byteSize inner := by
      intro depth' h
      obtain ⟨inner, rest, rfl, rfl⟩ := ih h
      exact ⟨c :: inner, rest, rfl, by simp only [Text.byteSize_cons]; omega⟩
    by_cases ho : c = '{'
    · subst ho
      rw [closeFrom?_open] at h
      exact hstep _ h
    · by_cases hc : c = '}'
      · subst hc
        rw [closeFrom?_close] at h
        split at h
        · exact ⟨[], cs, rfl, by simpa using h.symm⟩
        next hzero =>
          obtain ⟨depth', rfl⟩ := Nat.exists_eq_succ_of_ne_zero hzero
          exact hstep _ h
      · rw [closeFrom?_other ho hc] at h
        exact hstep _ h

theorem closeFrom?_append {offset depth n : Nat} {cs : List Char}
    (h : closeFrom? offset depth cs = some n) (more : List Char) :
    closeFrom? offset depth (cs ++ more) = some n := by
  induction cs generalizing offset depth with
  | nil => simp [closeFrom?] at h
  | cons c cs ih =>
    rw [List.cons_append, closeFrom?]
    rw [closeFrom?] at h
    split at h
    next hzero => rw [if_pos hzero, h]
    next hzero => rw [if_neg hzero, ih h]

/-- A count that has not come down to zero stays there in text that closes nothing. -/
theorem closeFrom?_append_of_not_mem {offset depth : Nat} {cs more : List Char}
    (hmore : '}' ∉ more) :
    closeFrom? offset (depth + 1) (cs ++ more) = closeFrom? offset (depth + 1) cs := by
  induction cs generalizing offset depth with
  | nil =>
    cases h : closeFrom? offset (depth + 1) more with
    | none => simpa [closeFrom?] using h
    | some n =>
      obtain ⟨inner, rest, rfl, -⟩ := closeFrom?_eq_some h
      simp at hmore
  | cons c cs ih =>
    rw [List.cons_append, closeFrom?, closeFrom?]
    cases openAfter (depth + 1) c with
    | zero => rfl
    | succ depth' => rw [if_neg (Nat.succ_ne_zero depth'), if_neg (Nat.succ_ne_zero depth'), ih]

/-! ### The stack of open braces -/

section Steps
variable (offset : Nat) (opens : List Nat) (pairs : Std.HashMap Nat Nat) (rest : List Char)

theorem matchFrom_open : matchFrom offset opens pairs ('{' :: rest) =
    matchFrom (offset + 1) (offset :: opens) pairs rest := by
  have hsize : '{'.utf8Size = 1 := by decide
  simp [matchFrom, hsize]

theorem matchFrom_stray : matchFrom offset [] pairs ('}' :: rest) =
    matchFrom (offset + 1) [] pairs rest := by
  have hsize : '}'.utf8Size = 1 := by decide
  simp [matchFrom, hsize]

theorem matchFrom_close (o : Nat) : matchFrom offset (o :: opens) pairs ('}' :: rest) =
    matchFrom (offset + 1) opens (pairs.insert o offset) rest := by
  have hsize : '}'.utf8Size = 1 := by decide
  simp [matchFrom, hsize]

theorem matchFrom_other {c : Char} (ho : c ≠ '{') (hc : c ≠ '}') :
    matchFrom offset opens pairs (c :: rest) =
      matchFrom (offset + c.utf8Size) opens pairs rest := by
  simp [matchFrom, ho, hc]

end Steps

/-- A brace before the offset that is not open any more keeps its partner or has none for good. -/
theorem matchFrom_of_not_open {k : Nat} {cs : List Char} {offset : Nat} {opens : List Nat}
    {pairs : Std.HashMap Nat Nat} (hk : k < offset) (hopen : k ∉ opens) :
    (matchFrom offset opens pairs cs)[k]? = pairs[k]? := by
  induction cs generalizing offset opens pairs with
  | nil => rfl
  | cons c cs ih =>
    by_cases ho : c = '{'
    · subst ho
      have hnew : k ∉ offset :: opens := by
        simp only [List.mem_cons, not_or]
        exact ⟨by omega, hopen⟩
      rw [matchFrom_open]
      exact ih (by omega) hnew
    · by_cases hc : c = '}'
      · subst hc
        cases opens with
        | nil =>
          rw [matchFrom_stray]
          exact ih (by omega) hopen
        | cons o outer =>
          simp only [List.mem_cons, not_or] at hopen
          rw [matchFrom_close, ih (by omega) hopen.2, Std.HashMap.getElem?_insert,
            if_neg (by simpa using Ne.symm hopen.1)]
      · rw [matchFrom_other _ _ _ _ ho hc]
        exact ih (by omega) hopen

/-- An open brace, with the braces `inner` opened after it, is paired as counting has it. -/
theorem matchFrom_of_open {k : Nat} {cs : List Char} {offset : Nat} {inner outer : List Nat}
    {pairs : Std.HashMap Nat Nat} (hk : k < offset) (hpairs : pairs[k]? = none)
    (hinner : k ∉ inner) (houter : k ∉ outer) :
    (matchFrom offset (inner ++ k :: outer) pairs cs)[k]? =
      closeFrom? offset (inner.length + 1) cs := by
  induction cs generalizing offset inner pairs with
  | nil => exact hpairs
  | cons c cs ih =>
    by_cases ho : c = '{'
    · subst ho
      have hnew : k ∉ offset :: inner := by
        simp only [List.mem_cons, not_or]
        exact ⟨by omega, hinner⟩
      rw [matchFrom_open, closeFrom?_open]
      exact @ih (offset + 1) (offset :: inner) pairs (by omega) hpairs hnew
    · by_cases hc : c = '}'
      · subst hc
        rw [closeFrom?_close]
        cases inner with
        | nil =>
          -- This is the brace itself; what is met later leaves its partner alone.
          rw [List.nil_append, matchFrom_close, matchFrom_of_not_open (by omega) houter,
            Std.HashMap.getElem?_insert_self]
          rfl
        | cons o inner =>
          simp only [List.mem_cons, not_or] at hinner
          have hstill : (pairs.insert o offset)[k]? = none := by
            rw [Std.HashMap.getElem?_insert, if_neg (by simpa using Ne.symm hinner.1), hpairs]
          rw [List.cons_append, matchFrom_close, List.length_cons, if_neg (Nat.succ_ne_zero _)]
          exact ih (by omega) hstill hinner.2
      · rw [matchFrom_other _ _ _ _ ho hc, closeFrom?_other ho hc]
        exact ih (by omega) hpairs hinner

structure OnlyBefore (offset : Nat) (opens : List Nat) (pairs : Std.HashMap Nat Nat) : Prop where
  opens_lt : ∀ o ∈ opens, o < offset
  pairs_none : ∀ k, offset ≤ k → pairs[k]? = none

theorem OnlyBefore.mono {offset offset' : Nat} {opens : List Nat} {pairs : Std.HashMap Nat Nat}
    (h : OnlyBefore offset opens pairs) (hle : offset ≤ offset') :
    OnlyBefore offset' opens pairs where
  opens_lt := fun o ho => Nat.lt_of_lt_of_le (h.opens_lt o ho) hle
  pairs_none := fun k hk => h.pairs_none k (Nat.le_trans hle hk)

/-- The pass comes to the end of a first part knowing of braces in it alone. -/
theorem matchFrom_append {cs : List Char} {offset : Nat} {opens : List Nat}
    {pairs : Std.HashMap Nat Nat} (h : OnlyBefore offset opens pairs) (more : List Char) :
    ∃ opens' pairs', OnlyBefore (offset + Text.byteSize cs) opens' pairs' ∧
      matchFrom offset opens pairs (cs ++ more) =
        matchFrom (offset + Text.byteSize cs) opens' pairs' more := by
  induction cs generalizing offset opens pairs with
  | nil => exact ⟨opens, pairs, h, rfl⟩
  | cons c cs ih =>
    have hstep : ∃ opens' pairs', OnlyBefore (offset + c.utf8Size) opens' pairs' ∧
        matchFrom offset opens pairs (c :: (cs ++ more)) =
          matchFrom (offset + c.utf8Size) opens' pairs' (cs ++ more) := by
      have hpos := c.utf8Size_pos
      have hkeep := h.mono (show offset ≤ offset + c.utf8Size by omega)
      by_cases ho : c = '{'
      · subst ho
        refine ⟨offset :: opens, pairs, ⟨fun o hm => ?_, hkeep.pairs_none⟩, matchFrom_open ..⟩
        rcases List.mem_cons.1 hm with rfl | hm
        · omega
        · exact hkeep.opens_lt o hm
      · by_cases hc : c = '}'
        · subst hc
          cases opens with
          | nil => exact ⟨[], pairs, hkeep, matchFrom_stray ..⟩
          | cons o outer =>
            have hlt := h.opens_lt o (by simp)
            refine ⟨outer, pairs.insert o offset,
              ⟨fun o hm => hkeep.opens_lt o (List.mem_cons_of_mem _ hm), fun k hk => ?_⟩,
              matchFrom_close ..⟩
            rw [Std.HashMap.getElem?_insert, if_neg (by simp; omega), hkeep.pairs_none k hk]
        · exact ⟨opens, pairs, hkeep, matchFrom_other _ _ _ _ ho hc⟩
    obtain ⟨opens', pairs', h', he⟩ := hstep
    rw [List.cons_append, he, Text.byteSize_cons, ← Nat.add_assoc]
    exact ih h'

/-- Each opening brace is paired with the brace that counting finds, or with none. -/
theorem matchBraces_open (before rest : List Char) :
    (matchBraces (before ++ '{' :: rest))[Text.byteSize before]? =
      (Place.mk (Text.byteSize before) ('{' :: rest)).close? := by
  have hstart : OnlyBefore 0 [] ∅ := ⟨by simp, by simp⟩
  obtain ⟨opens, pairs, h, he⟩ := @matchFrom_append before 0 [] ∅ hstart ('{' :: rest)
  rw [Nat.zero_add] at h he
  have hout : Text.byteSize before ∉ opens := fun hm => Nat.lt_irrefl _ (h.opens_lt _ hm)
  rw [matchBraces, he, matchFrom_open, Place.close?, closeFrom?_open]
  have hpairs := h.pairs_none _ (Nat.le_refl (Text.byteSize before))
  exact @matchFrom_of_open _ rest _ [] opens pairs (by omega) hpairs (by simp) hout

theorem exists_of_matchFrom {k n : Nat} {cs : List Char} {offset : Nat} {opens : List Nat}
    {pairs : Std.HashMap Nat Nat} (h : (matchFrom offset opens pairs cs)[k]? = some n) :
    (k ∈ opens ∨ pairs[k]? = some n) ∨
      ∃ before rest, cs = before ++ '{' :: rest ∧ k = offset + Text.byteSize before := by
  induction cs generalizing offset opens pairs with
  | nil => exact Or.inl (Or.inr h)
  | cons c cs ih =>
    have hlater : (∃ before rest, cs = before ++ '{' :: rest ∧
          k = offset + c.utf8Size + Text.byteSize before) →
        ∃ before rest, c :: cs = before ++ '{' :: rest ∧ k = offset + Text.byteSize before := by
      rintro ⟨before, rest, rfl, rfl⟩
      exact ⟨c :: before, rest, rfl, by simp only [Text.byteSize_cons]; omega⟩
    by_cases ho : c = '{'
    · subst ho
      rw [matchFrom_open] at h
      rcases ih h with (hm | hp) | hl
      · rcases List.mem_cons.1 hm with rfl | hm
        · exact Or.inr ⟨[], cs, rfl, rfl⟩
        · exact Or.inl (Or.inl hm)
      · exact Or.inl (Or.inr hp)
      · exact Or.inr (hlater hl)
    · by_cases hc : c = '}'
      · subst hc
        cases opens with
        | nil =>
          rw [matchFrom_stray] at h
          exact (ih h).imp_right hlater
        | cons o outer =>
          rw [matchFrom_close] at h
          rcases ih h with (hm | hp) | hl
          · exact Or.inl (Or.inl (List.mem_cons_of_mem o hm))
          · rw [Std.HashMap.getElem?_insert] at hp
            split at hp
            next he => exact Or.inl (Or.inl (by simp [beq_iff_eq.1 he]))
            · exact Or.inl (Or.inr hp)
          · exact Or.inr (hlater hl)
      · rw [matchFrom_other _ _ _ _ ho hc] at h
        exact (ih h).imp_right hlater

theorem exists_of_matchBraces {text : List Char} {k n : Nat}
    (h : (matchBraces text)[k]? = some n) :
    ∃ before rest, text = before ++ '{' :: rest ∧ k = Text.byteSize before := by
  rcases exists_of_matchFrom h with (hm | hp) | ⟨before, rest, ht, hk⟩
  · simp at hm
  · simp at hp
  · exact ⟨before, rest, ht, by omega⟩

end CodeAtlas.Script
