import Mathlib.Data.List.Basic
import CodeAtlas.Proofs.Text.Bytes
import CodeAtlas.Text.Blank

/-!
# Line numbers

Bisection over ascending line starts counts those that are not past the offset. For the starts of
a text's own lines this is the number of line feeds before the offset, and one more. A text that
ends with a line feed has as many lines as line feeds.
-/
namespace CodeAtlas.Text

/-- A line number counted from the front: one more than the line feeds before the byte offset. -/
def lineAt (text : List Char) (offset : Nat) : Nat := (takeBytes offset text).count '\n' + 1

/-- Whether the line is there and not blank. Line zero, which no text has, reads as line one. -/
def holdsText (lines : Array (List Char)) (n : Nat) : Bool :=
  (lines[n - 1]?).any fun line => !allBlank line

/-! ### Bisection -/

section Bisection
variable {starts : Array Nat} {offset : Nat}

theorem getD_of_pairwise {r : Nat → Nat → Prop} (h : starts.toList.Pairwise r) {i j : Nat}
    (hij : i < j) (hj : j < starts.size) : r (starts.getD i 0) (starts.getD j 0) := by
  have hi : i < starts.size := by omega
  have hrel := List.pairwise_iff_getElem.1 h i j (by simpa using hi) (by simpa using hj) hij
  simpa [Array.getD, hi, hj] using hrel

theorem getD_le_getD (h : starts.toList.Pairwise (· ≤ ·)) {i j : Nat} (hij : i ≤ j)
    (hj : j < starts.size) : starts.getD i 0 ≤ starts.getD j 0 := by
  rcases Nat.eq_or_lt_of_le hij with rfl | hlt
  · exact Nat.le_refl _
  · exact getD_of_pairwise h hlt hj

/-- The place where bisection ends: what lies behind it is past the offset, and it is not itself,
unless it is the very first. -/
theorem bisect_spec (h : starts.toList.Pairwise (· ≤ ·)) {base size : Nat} (hpos : 0 < size)
    (hend : base + size ≤ starts.size) (hlow : base = 0 ∨ starts.getD base 0 ≤ offset)
    (hhigh : ∀ i, base + size ≤ i → i < starts.size → offset < starts.getD i 0) :
    bisect starts offset base size < starts.size ∧
      (bisect starts offset base size = 0 ∨
        starts.getD (bisect starts offset base size) 0 ≤ offset) ∧
      ∀ i, bisect starts offset base size < i → i < starts.size → offset < starts.getD i 0 := by
  induction base, size using bisect.induct starts offset with
  | case1 base size hsize half mid ih =>
    have hhalf : half = size / 2 := rfl
    have hmid : mid = base + half := rfl
    rw [bisect, if_pos hsize]
    apply ih
    · omega
    · split <;> omega
    · split
      · exact hlow
      next hle => exact Or.inr (by omega)
    · intro i hi hin
      split at hi
      next hlt =>
        by_cases hfar : base + size ≤ i
        · exact hhigh i hfar hin
        · have := getD_le_getD h (show mid ≤ i by omega) hin
          omega
      · exact hhigh i (by omega) hin
  | case2 base size hsize =>
    obtain rfl : size = 1 := by omega
    rw [bisect, if_neg hsize]
    exact ⟨by omega, hlow, fun i hi => hhigh i (by omega)⟩

theorem countP_eq_of_getD {p : Nat → Bool} {k : Nat} (hk : k ≤ starts.size)
    (hlow : ∀ i < k, p (starts.getD i 0) = true)
    (hhigh : ∀ i, k ≤ i → i < starts.size → p (starts.getD i 0) = false) :
    starts.toList.countP p = k := by
  have htake : (starts.toList.take k).countP p = k := by
    have hlen : (starts.toList.take k).length = k := by simp [Nat.min_eq_left hk]
    have hall : ∀ a ∈ starts.toList.take k, p a = true := by
      intro a ha
      obtain ⟨i, hi, rfl⟩ := List.getElem_of_mem ha
      have hik : i < k := by omega
      have hin : i < starts.size := by omega
      simpa [Array.getD, hin] using hlow i hik
    rw [List.countP_eq_length.2 hall, hlen]
  have hdrop : (starts.toList.drop k).countP p = 0 := by
    apply List.countP_eq_zero.2
    intro a ha
    obtain ⟨i, hi, rfl⟩ := List.getElem_of_mem ha
    have hin : k + i < starts.size := by
      simp only [List.length_drop, Array.length_toList] at hi
      omega
    have hp := hhigh (k + i) (by omega) hin
    simpa [Array.getD, hin] using hp
  rw [← List.take_append_drop k starts.toList, List.countP_append, htake, hdrop, Nat.add_zero]

theorem lineOf_eq_countP (h : starts.toList.Pairwise (· ≤ ·)) (offset : Nat) :
    lineOf starts offset = starts.toList.countP (· ≤ offset) := by
  unfold lineOf
  split
  next hzero =>
    obtain rfl : starts = #[] := Array.size_eq_zero_iff.1 hzero
    rfl
  next hzero =>
    obtain ⟨hlt, hlow, hhigh⟩ := @bisect_spec starts offset h 0 starts.size (Nat.pos_of_ne_zero hzero)
      (by omega) (Or.inl rfl) (by intro i hi hin; omega)
    generalize bisect starts offset 0 starts.size = b at hlt hlow hhigh ⊢
    by_cases hle : starts.getD b 0 ≤ offset
    · rw [if_pos hle]
      refine (countP_eq_of_getD (by omega) (fun i hi => ?_) fun i hi hin => ?_).symm
      · have := getD_le_getD h (show i ≤ b by omega) hlt
        exact decide_eq_true (by omega)
      · have := hhigh i (by omega) hin
        exact decide_eq_false (by omega)
    · rw [if_neg hle]
      obtain rfl : b = 0 := by omega
      refine (countP_eq_of_getD (by omega) (fun i hi => by omega) fun i hi hin => ?_).symm
      have := getD_le_getD h (Nat.zero_le i) hin
      exact decide_eq_false (by omega)

end Bisection

/-! ### The lines of a text -/

theorem lineStartsFrom_eq (offset : Nat) (out : List Nat) (cs : List Char) :
    lineStartsFrom offset out cs = out.reverse ++ lineStartsFrom offset [] cs := by
  induction cs generalizing offset out with
  | nil => simp [lineStartsFrom]
  | cons c cs ih =>
    simp only [lineStartsFrom]
    rw [ih]
    split
    · rw [ih _ [offset + c.utf8Size]]
      simp
    · rfl

theorem lineStartsFrom_cons (offset : Nat) (c : Char) (cs : List Char) :
    lineStartsFrom offset [] (c :: cs) =
      (if c = '\n' then [offset + c.utf8Size] else []) ++
        lineStartsFrom (offset + c.utf8Size) [] cs := by
  rw [lineStartsFrom, lineStartsFrom_eq]
  split <;> simp

theorem lt_of_mem_lineStartsFrom {offset n : Nat} {cs : List Char}
    (h : n ∈ lineStartsFrom offset [] cs) : offset < n := by
  induction cs generalizing offset with
  | nil => simp [lineStartsFrom] at h
  | cons c cs ih =>
    have hpos := c.utf8Size_pos
    rw [lineStartsFrom_cons] at h
    rcases List.mem_append.1 h with h | h
    · split at h
      · have hn := List.mem_singleton.1 h
        omega
      · simp at h
    · have := ih h
      omega

theorem lineStartsFrom_ascending (offset : Nat) (cs : List Char) :
    (lineStartsFrom offset [] cs).Pairwise (· < ·) := by
  induction cs generalizing offset with
  | nil => simp [lineStartsFrom]
  | cons c cs ih =>
    rw [lineStartsFrom_cons]
    split
    · exact List.pairwise_cons.2 ⟨fun n hn => lt_of_mem_lineStartsFrom hn, ih _⟩
    · exact ih _

theorem lineStarts_eq (cs : List Char) : lineStarts cs = 0 :: lineStartsFrom 0 [] cs :=
  lineStartsFrom_eq 0 [0] cs

theorem lineStarts_ascending (cs : List Char) : (lineStarts cs).Pairwise (· < ·) := by
  rw [lineStarts_eq]
  exact List.pairwise_cons.2
    ⟨fun n hn => lt_of_mem_lineStartsFrom hn, lineStartsFrom_ascending 0 cs⟩

theorem countP_lineStartsFrom (offset n : Nat) (cs : List Char) :
    (lineStartsFrom offset [] cs).countP (· ≤ offset + n) = (takeBytes n cs).count '\n' := by
  induction cs generalizing offset n with
  | nil => rfl
  | cons c cs ih =>
    rw [lineStartsFrom_cons, List.countP_append, takeBytes_cons]
    by_cases hle : c.utf8Size ≤ n
    · have hrest := ih (offset + c.utf8Size) (n - c.utf8Size)
      rw [show offset + c.utf8Size + (n - c.utf8Size) = offset + n by omega] at hrest
      rw [hrest, if_pos hle]
      by_cases hc : c = '\n'
      · have hstart : [offset + c.utf8Size].countP (· ≤ offset + n) = 1 := by
          simpa using hle
        rw [if_pos hc, hstart, hc, List.count_cons_self, Nat.add_comm]
      · simp [hc]
    · -- Neither this start nor any later one lies before the offset.
      have hnone : (lineStartsFrom (offset + c.utf8Size) [] cs).countP (· ≤ offset + n) = 0 := by
        apply List.countP_eq_zero.2
        intro m hm
        have := lt_of_mem_lineStartsFrom hm
        simp only [decide_eq_true_eq]
        omega
      rw [hnone, if_neg hle]
      split <;> simp
      omega

theorem lineOf_lineStarts (text : List Char) (offset : Nat) :
    lineOf (lineStarts text).toArray offset = lineAt text offset := by
  have hasc := (lineStarts_ascending text).imp fun {a b} (h : a < b) => Nat.le_of_lt h
  rw [lineOf_eq_countP (by simpa using hasc), lineStarts_eq, List.countP_cons, lineAt]
  have hcount := countP_lineStartsFrom 0 offset text
  simp only [Nat.zero_add] at hcount
  simp [hcount]

theorem lineAt_pos (text : List Char) (offset : Nat) : 0 < lineAt text offset :=
  Nat.succ_pos _

theorem lineAt_mono (text : List Char) {m n : Nat} (h : m ≤ n) : lineAt text m ≤ lineAt text n :=
  Nat.succ_le_succ ((takeBytes_prefix_of_le text h).sublist.count_le _)

theorem lineAt_append_of_le {text : List Char} {offset : Nat} (h : offset ≤ byteSize text)
    (more : List Char) : lineAt (text ++ more) offset = lineAt text offset := by
  rw [lineAt, lineAt, takeBytes_append_of_le h]

theorem lineAt_byteSize_add (text more : List Char) (n : Nat) :
    lineAt (text ++ more) (byteSize text + n) = text.count '\n' + lineAt more n := by
  rw [lineAt, lineAt, takeBytes_byteSize_add, List.count_append]
  omega

theorem dropReturn_eq {line : List Char} (h : line.head? ≠ some '\r') : dropReturn line = line := by
  unfold dropReturn
  split
  · simp at h
  · rfl

theorem linesFrom_eq (line : List Char) (out : List (List Char)) (cs : List Char) :
    linesFrom line out cs = out.reverse ++ linesFrom line [] cs := by
  induction cs generalizing line out with
  | nil =>
    simp only [linesFrom]
    split <;> simp
  | cons c cs ih =>
    simp only [linesFrom]
    split
    · rw [ih, ih _ [_]]
      simp
    · rw [ih]

theorem length_linesFrom_newline (line cs : List Char) :
    (linesFrom line [] (cs ++ ['\n'])).length = (cs ++ ['\n']).count '\n' := by
  induction cs generalizing line with
  | nil => simp [linesFrom]
  | cons c cs ih =>
    simp only [List.cons_append, linesFrom]
    split
    next hc =>
      rw [linesFrom_eq, List.length_append, ih, hc, List.count_cons_self]
      simp
      omega
    next hc =>
      rw [ih, List.count_cons_of_ne (by simpa using hc)]

theorem length_lines {cs : List Char} (h : cs.getLast? = some '\n') :
    (lines cs).length = cs.count '\n' := by
  obtain ⟨cs, rfl⟩ := List.getLast?_eq_some_iff.1 h
  exact length_linesFrom_newline [] cs

end CodeAtlas.Text
