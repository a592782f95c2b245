import CodeAtlas.Text.Lines

namespace CodeAtlas.Text

@[simp]
theorem byteSize_nil : byteSize [] = 0 := rfl

@[simp]
theorem byteSize_cons (c : Char) (cs : List Char) :
    byteSize (c :: cs) = c.utf8Size + byteSize cs := by
  have h : ∀ (cs : List Char) (n : Nat),
      cs.foldl (fun n c => n + c.utf8Size) n = n + byteSize cs := by
    intro cs
    induction cs with
    | nil => simp
    | cons c cs ih =>
      intro n
      have hzero := ih (0 + c.utf8Size)
      simp only [byteSize, List.foldl_cons] at hzero ih ⊢
      rw [ih, hzero]
      omega
  rw [byteSize, List.foldl_cons, h]
  omega

@[simp]
theorem byteSize_append (cs ds : List Char) : byteSize (cs ++ ds) = byteSize cs + byteSize ds := by
  induction cs with
  | nil => simp
  | cons c cs ih =>
    simp only [List.cons_append, byteSize_cons, ih]
    omega

theorem takeBytesFrom_eq (limit : Nat) (out cs : List Char) :
    takeBytesFrom limit out cs = out.reverse ++ takeBytes limit cs := by
  unfold takeBytes
  induction cs generalizing limit out with
  | nil => simp [takeBytesFrom]
  | cons c cs ih =>
    simp only [takeBytesFrom]
    split
    · rw [ih, ih _ [c]]
      simp
    · simp

@[simp]
theorem takeBytes_nil (limit : Nat) : takeBytes limit [] = [] := rfl

theorem takeBytes_cons (limit : Nat) (c : Char) (cs : List Char) :
    takeBytes limit (c :: cs) =
      if c.utf8Size ≤ limit then c :: takeBytes (limit - c.utf8Size) cs else [] := by
  rw [takeBytes, takeBytesFrom]
  split
  · rw [takeBytesFrom_eq]
    rfl
  · rfl

theorem takeBytes_prefix_of_le (cs : List Char) {m n : Nat} (h : m ≤ n) :
    takeBytes m cs <+: takeBytes n cs := by
  induction cs generalizing m n with
  | nil => simp
  | cons c cs ih =>
    rw [takeBytes_cons, takeBytes_cons]
    by_cases hc : c.utf8Size ≤ m
    · rw [if_pos hc, if_pos (Nat.le_trans hc h)]
      exact List.cons_prefix_cons.2 ⟨rfl, ih (by omega)⟩
    · rw [if_neg hc]
      exact List.nil_prefix

theorem takeBytes_append_of_le {limit : Nat} {cs : List Char} (h : limit ≤ byteSize cs)
    (ds : List Char) : takeBytes limit (cs ++ ds) = takeBytes limit cs := by
  induction cs generalizing limit with
  | nil =>
    obtain rfl : limit = 0 := by simpa using h
    cases ds with
    | nil => rfl
    | cons d ds =>
      have := d.utf8Size_pos
      rw [List.nil_append, takeBytes_cons, if_neg (by omega), takeBytes_nil]
  | cons c cs ih =>
    rw [List.cons_append, takeBytes_cons, takeBytes_cons]
    split
    · rw [ih]
      simp only [byteSize_cons] at h
      omega
    · rfl

theorem takeBytes_byteSize_add (cs ds : List Char) (n : Nat) :
    takeBytes (byteSize cs + n) (cs ++ ds) = cs ++ takeBytes n ds := by
  induction cs with
  | nil => simp
  | cons c cs ih =>
    have hsub : byteSize (c :: cs) + n - c.utf8Size = byteSize cs + n := by
      simp only [byteSize_cons]
      omega
    rw [List.cons_append, takeBytes_cons, if_pos (by simp only [byteSize_cons]; omega), hsub, ih,
      List.cons_append]

theorem takeBytes_byteSize (cs ds : List Char) : takeBytes (byteSize cs) (cs ++ ds) = cs := by
  rw [takeBytes_append_of_le (Nat.le_refl _)]
  simpa using takeBytes_byteSize_add cs [] 0

end CodeAtlas.Text
