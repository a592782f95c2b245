/-!
# Ids of diagram nodes

Ids are handed out in the order in which the nodes are met. Modules are numbered through; a class
is numbered within its module and file, so that a class that is added at the end of a file leaves
all other ids as they are.
-/
namespace CodeAtlas

/-- What has been handed out so far. -/
structure IdSupply where
  nextModule : Nat := 0
  /-- For each module and file that has classes, how many ids its classes have taken. -/
  taken : List ((Nat × Nat) × Nat) := []
  deriving Repr

namespace IdSupply

def empty : IdSupply := {}

def moduleText (ordinal : Nat) : String := "m" ++ toString ordinal

def classText (module file n : Nat) : String :=
  "c" ++ toString module ++ "_" ++ toString file ++ "_" ++ toString n

/-- The next module's number and the supply after it. -/
def takeModule (s : IdSupply) : Nat × IdSupply :=
  (s.nextModule, { s with nextModule := s.nextModule + 1 })

def takenFor (s : IdSupply) (module file : Nat) : Nat := (s.taken.lookup (module, file)).getD 0

/-- Sets the count for a module and file. -/
def setTaken (slot : Nat × Nat) (n : Nat) : List ((Nat × Nat) × Nat) → List ((Nat × Nat) × Nat)
  | [] => [(slot, n)]
  | entry :: rest => if entry.1 = slot then (slot, n) :: rest else entry :: setTaken slot n rest

/-- The id of the next class of a module and file, and the supply after it. -/
def takeClass (s : IdSupply) (module file : Nat) : String × IdSupply :=
  let n := s.takenFor module file
  (classText module file n, { s with taken := setTaken (module, file) (n + 1) s.taken })

theorem lookup_setTaken (slot other : Nat × Nat) (n : Nat) (xs : List ((Nat × Nat) × Nat)) :
    (setTaken slot n xs).lookup other = if other = slot then some n else xs.lookup other := by
  induction xs with
  | nil =>
    by_cases h : other = slot
    · simp [setTaken, h]
    · simp [setTaken, List.lookup_cons, h, beq_false_of_ne h]
  | cons e xs ih =>
    obtain ⟨key, count⟩ := e
    by_cases ho : other = key
    · subst ho
      by_cases he : other = slot <;> simp [setTaken, he]
    · by_cases he : key = slot
      · subst he
        simp [setTaken, ho, beq_false_of_ne ho, List.lookup_cons]
      · simp [setTaken, he, beq_false_of_ne ho, List.lookup_cons, ih]

theorem takenFor_takeClass (s : IdSupply) (m f m' f' : Nat) :
    (s.takeClass m f).2.takenFor m' f' =
      if (m', f') = (m, f) then s.takenFor m f + 1 else s.takenFor m' f' := by
  simp only [takeClass, takenFor, lookup_setTaken]
  split <;> simp

end IdSupply
end CodeAtlas
