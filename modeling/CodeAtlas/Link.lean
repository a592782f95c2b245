import CodeAtlas.Path

/-!
# Links between files

A link leads from a directory to a file, both given from the same top: up to the last directory
that they share, then down. Root, `.` and `..` in the two paths are left out of account.
-/
namespace CodeAtlas

/-- The number of leading elements that two lists share. -/
def sharedLength : List String → List String → Nat
  | a :: as, b :: bs => if a = b then sharedLength as bs + 1 else 0
  | _, _ => 0

/-- The steps from one directory to a file: `..` for each directory left, then names. -/
def linkSegments (src target : List String) : List String :=
  let shared := sharedLength src target
  List.replicate (src.length - shared) ".." ++ target.drop shared

def relativeLink (dir target : Path) : String :=
  "/".intercalate (linkSegments dir.names target.names)

theorem sharedLength_le (as bs : List String) :
    sharedLength as bs ≤ as.length ∧ sharedLength as bs ≤ bs.length := by
  induction as generalizing bs with
  | nil => simp [sharedLength]
  | cons a as ih =>
    cases bs with
    | nil => simp [sharedLength]
    | cons b bs =>
      have := ih bs
      simp only [sharedLength, List.length_cons]
      split <;> omega

theorem take_sharedLength (as bs : List String) :
    as.take (sharedLength as bs) = bs.take (sharedLength as bs) := by
  induction as generalizing bs with
  | nil => simp [sharedLength]
  | cons a as ih =>
    cases bs with
    | nil => simp [sharedLength]
    | cons b bs =>
      by_cases h : a = b
      · simp [sharedLength, h, ih bs]
      · simp [sharedLength, h]

end CodeAtlas
