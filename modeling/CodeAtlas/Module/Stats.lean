import CodeAtlas.Source
import CodeAtlas.Number.Rounding

/-!
# Counts over classes

How many classes there are and how many lines and methods they have together. Counts add up.
-/
namespace CodeAtlas

structure Stats where
  classCount : Nat
  totalLoc : Nat
  methodCount : Nat
  deriving DecidableEq, Repr, Inhabited

namespace Stats

def zero : Stats := ⟨0, 0, 0⟩

def add (a b : Stats) : Stats :=
  ⟨a.classCount + b.classCount, a.totalLoc + b.totalLoc, a.methodCount + b.methodCount⟩

instance : Zero Stats := ⟨zero⟩

instance : Add Stats := ⟨add⟩

def ofClass (c : ClassInfo) : Stats := ⟨1, c.loc, c.methodCount⟩

def sum (xs : List Stats) : Stats := xs.foldr add zero

def ofClasses (cs : List ClassInfo) : Stats := sum (cs.map ofClass)

/-- Lines for each class on average, zero when there is none. -/
def averageLoc (s : Stats) : String := Number.averageText s.totalLoc s.classCount

theorem add_assoc (a b c : Stats) : add (add a b) c = add a (add b c) := by
  simp [add, Nat.add_assoc]

theorem add_comm (a b : Stats) : add a b = add b a := by
  simp [add, Nat.add_comm]

theorem zero_add (a : Stats) : add zero a = a := by
  simp [add, zero]

theorem add_zero (a : Stats) : add a zero = a := by
  simp [add, zero]

theorem sum_cons (x : Stats) (xs : List Stats) : sum (x :: xs) = add x (sum xs) := rfl

theorem sum_append (xs ys : List Stats) : sum (xs ++ ys) = add (sum xs) (sum ys) := by
  induction xs with
  | nil => simp [sum, zero_add]
  | cons x xs ih =>
    simp only [sum, List.cons_append, List.foldr_cons] at ih ⊢
    rw [ih, add_assoc]

theorem sum_flatMap {α : Type} (f : α → List Stats) (xs : List α) :
    sum (xs.flatMap f) = sum (xs.map fun x => sum (f x)) := by
  induction xs with
  | nil => rfl
  | cons x xs ih => rw [List.flatMap_cons, sum_append, ih, List.map_cons, sum_cons]

theorem sum_perm {xs ys : List Stats} (h : xs.Perm ys) : sum xs = sum ys := by
  induction h with
  | nil => rfl
  | cons x _ ih => rw [sum_cons, sum_cons, ih]
  | swap x y xs =>
    simp only [sum_cons]
    rw [← add_assoc, add_comm y x, add_assoc]
  | trans _ _ ih ih' => exact ih.trans ih'

theorem ofClasses_perm {cs cs' : List ClassInfo} (h : cs.Perm cs') :
    ofClasses cs = ofClasses cs' :=
  sum_perm (h.map ofClass)

theorem ofClasses_flatMap {α : Type} (f : α → List ClassInfo) (xs : List α) :
    ofClasses (xs.flatMap f) = sum (xs.map fun x => ofClasses (f x)) := by
  rw [ofClasses, List.map_flatMap, sum_flatMap]
  rfl

theorem sum_classCount (cs : List ClassInfo) : (ofClasses cs).classCount = cs.length := by
  induction cs with
  | nil => rfl
  | cons c cs ih =>
    simp only [ofClasses, sum, List.map_cons, List.foldr_cons, add, List.length_cons] at ih ⊢
    rw [ih, ofClass, Nat.add_comm]

end Stats
end CodeAtlas
