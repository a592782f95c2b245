import CodeAtlas.Proofs.Text.LineNumbers
import CodeAtlas.Proofs.Text.Offsets

/-!
# Lines told by bytes

A line feed is a byte of its own that no other character is made of. So the lines of a text begin
behind its line feed bytes, and the line of a byte offset, in the text or past its end, is one more
than the number of these bytes before it. A search among ascending starts may find the offset or
the place where it would belong; either answer gives the same line.
-/
namespace CodeAtlas.Text

/-- An answer that a search for an offset among the starts may give: a place where it stands, or,
if it is not there, the place that parts the smaller starts from the larger ones. -/
inductive Sought (starts : Array Nat) (offset : Nat) : Except Nat Nat → Prop
  | found {i : Nat} (h : starts[i]? = some offset) : Sought starts offset (.ok i)
  | missing {i : Nat} (hi : i ≤ starts.size) (hlow : ∀ j < i, starts.getD j 0 < offset)
      (hhigh : ∀ j, i ≤ j → j < starts.size → offset < starts.getD j 0) :
      Sought starts offset (.error i)

def lineSought : Except Nat Nat → Nat
  | .ok i => i + 1
  | .error i => i

/-! ### Line feed bytes -/

theorem newline_not_mem_utf8EncodeChar {c : Char} (h : c ≠ '\n') :
    '\n'.toUInt8 ∉ String.utf8EncodeChar c := by
  intro hmem
  by_cases hsize : c.utf8Size = 1
  · rw [String.utf8EncodeChar_eq_singleton hsize, List.mem_singleton] at hmem
    have hchar := ofUInt8_toUInt8 (Char.utf8Size_eq_one_iff.1 hsize)
    rw [← hmem] at hchar
    exact h hchar.symm
  · have hlarge := le_of_mem_utf8EncodeChar hsize _ hmem
    exact absurd hlarge (by decide)

theorem count_utf8EncodeChar (c : Char) :
    (String.utf8EncodeChar c).count '\n'.toUInt8 = [c].count '\n' := by
  by_cases hc : c = '\n'
  · rw [hc]
    decide
  · rw [List.count_eq_zero.2 (newline_not_mem_utf8EncodeChar hc), List.count_eq_zero.2]
    simpa using Ne.symm hc

/-- The line feed bytes before an offset are those of the line feeds before it. -/
theorem count_take_bytes (text : List Char) (offset : Nat) :
    ((bytes text).take offset).count '\n'.toUInt8 = (takeBytes offset text).count '\n' := by
  induction text generalizing offset with
  | nil => simp [bytes]
  | cons c text ih =>
    rw [bytes_cons, List.take_append, List.count_append, String.length_utf8EncodeChar, takeBytes_cons]
    by_cases hle : c.utf8Size ≤ offset
    · rw [if_pos hle, ih, List.take_of_length_le (by rwa [String.length_utf8EncodeChar]),
        count_utf8EncodeChar, ← List.count_append, List.singleton_append]
    · -- The offset is inside of the character, so that this is no line feed, or right before it.
      have hpart : (List.take offset (String.utf8EncodeChar c)).count '\n'.toUInt8 = 0 := by
        by_cases hc : c = '\n'
        · have hsize : '\n'.utf8Size = 1 := by decide
          rw [hc, hsize] at hle
          rw [Nat.lt_one_iff.1 (Nat.not_le.1 hle)]
          rfl
        · exact List.count_eq_zero.2 fun hmem =>
            newline_not_mem_utf8EncodeChar hc (List.mem_of_mem_take hmem)
      rw [if_neg hle, hpart, Nat.sub_eq_zero_of_le (by omega)]
      rfl

theorem getElem?_bytes_cons_eq_newline {c : Char} {text : List Char} {n : Nat} :
    (bytes (c :: text))[n]? = some '\n'.toUInt8 ↔
      c = '\n' ∧ n = 0 ∨ ∃ m, n = c.utf8Size + m ∧ (bytes text)[m]? = some '\n'.toUInt8 := by
  rw [bytes_cons]
  by_cases hlt : n < c.utf8Size
  · rw [List.getElem?_append_left (by rwa [String.length_utf8EncodeChar])]
    constructor
    · intro h
      have hmem := List.mem_of_getElem? h
      have hc : c = '\n' := by
        by_contra hne
        exact newline_not_mem_utf8EncodeChar hne hmem
      have hsize : '\n'.utf8Size = 1 := by decide
      rw [hc, hsize] at hlt
      exact Or.inl ⟨hc, Nat.lt_one_iff.1 hlt⟩
    · rintro (⟨rfl, rfl⟩ | ⟨m, rfl, -⟩)
      · decide
      · omega
  · have hpos := c.utf8Size_pos
    rw [List.getElem?_append_right (by rw [String.length_utf8EncodeChar]; omega),
      String.length_utf8EncodeChar]
    constructor
    · exact fun h => Or.inr ⟨n - c.utf8Size, by omega, h⟩
    · rintro (⟨-, rfl⟩ | ⟨m, rfl, h⟩)
      · omega
      · rwa [Nat.add_sub_cancel_left]

theorem mem_lineStartsFrom {offset n : Nat} {text : List Char} :
    n ∈ lineStartsFrom offset [] text ↔
      ∃ m, n = offset + m + 1 ∧ (bytes text)[m]? = some '\n'.toUInt8 := by
  induction text generalizing offset with
  | nil => simp [lineStartsFrom, bytes]
  | cons c text ih =>
    have hfirst : n ∈ (if c = '\n' then [offset + c.utf8Size] else []) ↔
        c = '\n' ∧ n = offset + 1 := by
      by_cases hc : c = '\n'
      · have hsize : '\n'.utf8Size = 1 := by decide
        simp [hc, hsize]
      · simp [hc]
    rw [lineStartsFrom_cons, List.mem_append, ih, hfirst]
    simp only [getElem?_bytes_cons_eq_newline]
    constructor
    · rintro (⟨hc, hn⟩ | ⟨m, hn, hm⟩)
      · exact ⟨0, hn, Or.inl ⟨hc, rfl⟩⟩
      · exact ⟨c.utf8Size + m, by omega, Or.inr ⟨m, rfl, hm⟩⟩
    · rintro ⟨m, hn, ⟨hc, rfl⟩ | ⟨k, rfl, hk⟩⟩
      · exact Or.inl ⟨hc, hn⟩
      · exact Or.inr ⟨k, by omega, hk⟩

theorem mem_lineStarts {n : Nat} {text : List Char} :
    n ∈ lineStarts text ↔ n = 0 ∨ ∃ m, n = m + 1 ∧ (bytes text)[m]? = some '\n'.toUInt8 := by
  rw [lineStarts_eq, List.mem_cons, mem_lineStartsFrom]
  simp only [Nat.zero_add]

/-! ### The search -/

section Search
variable {starts : Array Nat} {offset : Nat}

/-- Whichever answer the search gives, the line is the number of starts not past the offset. -/
theorem Sought.line_eq (h : starts.toList.Pairwise (· < ·)) {answer : Except Nat Nat}
    (hs : Sought starts offset answer) :
    lineSought answer = starts.toList.countP (· ≤ offset) := by
  symm
  cases hs with
  | @found i hi =>
    obtain ⟨hlt, he⟩ := Array.getElem?_eq_some_iff.1 hi
    have hget : starts.getD i 0 = offset := by simp [Array.getD, hlt, he]
    refine countP_eq_of_getD hlt (fun j hj => decide_eq_true ?_) fun j hij hj => decide_eq_false ?_
    · rcases Nat.lt_succ_iff_lt_or_eq.1 hj with hji | rfl
      · have := getD_of_pairwise h hji hlt
        omega
      · exact Nat.le_of_eq hget
    · have := getD_of_pairwise h hij hj
      omega
  | missing hi hlow hhigh =>
    refine countP_eq_of_getD hi (fun j hj => decide_eq_true ?_) fun j hij hj => decide_eq_false ?_
    · exact Nat.le_of_lt (hlow j hj)
    · exact Nat.not_le.2 (hhigh j hij hj)

end Search

/-- The line of an offset counts the line feed bytes before it; among any ascending starts, the
starts that are not past the offset. -/
theorem lineOf_counts (text : List Char) {starts : Array Nat}
    (h : starts.toList.Pairwise (· < ·)) (offset : Nat) :
    lineOf (lineStarts text).toArray offset = 1 + ((bytes text).take offset).count '\n'.toUInt8 ∧
      lineOf starts offset = starts.toList.countP (· ≤ offset) ∧
      ∀ answer, Sought starts offset answer → lineOf starts offset = lineSought answer := by
  have hcount : lineOf starts offset = starts.toList.countP (· ≤ offset) :=
    lineOf_eq_countP (h.imp fun hlt => Nat.le_of_lt hlt) offset
  refine ⟨?_, hcount, fun answer hs => hcount.trans (hs.line_eq h).symm⟩
  rw [lineOf_lineStarts, lineAt, count_take_bytes, Nat.add_comm]

/-- An offset on a start, with a blank line and a character of two bytes before it. -/
theorem lineOf_counts_blankLine :
    (#[0, 3, 4] : Array Nat).toList.Pairwise (· < ·) ∧
      lineOf (lineStarts "é\n\nab".toList).toArray 4 =
        1 + ((bytes "é\n\nab".toList).take 4).count '\n'.toUInt8 ∧
      lineOf #[0, 3, 4] 4 = (#[0, 3, 4] : Array Nat).toList.countP (· ≤ 4) ∧
      ∀ answer, Sought #[0, 3, 4] 4 answer → lineOf #[0, 3, 4] 4 = lineSought answer := by
  have h : (#[0, 3, 4] : Array Nat).toList.Pairwise (· < ·) := by decide
  exact ⟨h, lineOf_counts "é\n\nab".toList h 4⟩

end CodeAtlas.Text
