import ShapeCheck.Entries

/-!
# Structural types

What checking an expression or an annotation yields. Apart from `empty` and `ignore`, each form
records whether it stands for a value that is there (`hasValue`) or only describes a type.
-/

namespace ShapeCheck

structure Atom (τ : Type) where
  name : String
  arguments : List τ
  hasValue : Bool

inductive Ty where
  | number (hasValue : Bool)
  | string (hasValue : Bool)
  | tuple (hasValue : Bool) (items : List Ty)
  /-- The entries ascend by name. -/
  | record (hasValue : Bool) (entries : List (String × Ty))
  | function (hasValue : Bool) (parameters : List Ty) (result : Ty)
  | atom (atom : Atom Ty)
  | union (hasValue : Bool) (atoms : List (Atom Ty))
  /-- A parameter's type that is not known yet. -/
  | placeholder (hasValue : Bool) (id : Nat)
  /-- The type of statements. -/
  | empty
  /-- Stands in for whatever has already failed to check. -/
  | ignore

instance : Inhabited Ty := ⟨.ignore⟩

namespace Ty

/-! ## Values and types -/

/-- `ignore` counts as a value, so that one failure causes no second error. -/
def hasValue : Ty → Bool
  | number v | string v | tuple v _ | record v _ | function v _ _ | union v _ => v
  | placeholder v _ => v
  | atom a => a.hasValue
  | empty => false
  | ignore => true

/-- The same type with its outermost mark set to `v`. -/
def withValue (v : Bool) : Ty → Ty
  | number _ => number v
  | string _ => string v
  | tuple _ items => tuple v items
  | record _ entries => record v entries
  | function _ parameters result => function v parameters result
  | atom a => atom { a with hasValue := v }
  | union _ atoms => union v atoms
  | placeholder _ id => placeholder v id
  | empty => empty
  | ignore => ignore

@[simp] theorem withValue_withValue (v w : Bool) (t : Ty) :
    (t.withValue w).withValue v = t.withValue v := by
  cases t <;> rfl

@[simp] theorem withValue_hasValue (t : Ty) : t.withValue t.hasValue = t := by
  cases t <;> rfl

def placeholder? : Ty → Option Nat
  | placeholder _ id => some id
  | _ => none

/-! ## Failure inside a type -/

mutual
def containsIgnore : Ty → Bool
  | ignore => true
  | tuple _ items => anyContainsIgnore items
  | record _ entries => entriesContainIgnore entries
  | function _ parameters result => anyContainsIgnore parameters || containsIgnore result
  | atom a => atomContainsIgnore a
  | union _ atoms => atomsContainIgnore atoms
  | number _ | string _ | placeholder _ _ | empty => false
def anyContainsIgnore : List Ty → Bool
  | [] => false
  | t :: ts => containsIgnore t || anyContainsIgnore ts
def entriesContainIgnore : List (String × Ty) → Bool
  | [] => false
  | (_, t) :: es => containsIgnore t || entriesContainIgnore es
def atomContainsIgnore : Atom Ty → Bool
  | ⟨_, arguments, _⟩ => anyContainsIgnore arguments
def atomsContainIgnore : List (Atom Ty) → Bool
  | [] => false
  | a :: as => atomContainsIgnore a || atomsContainIgnore as
end

theorem anyContainsIgnore_eq_any (ts : List Ty) :
    anyContainsIgnore ts = ts.any containsIgnore := by
  induction ts with
  | nil => rfl
  | cons t ts ih => simp [anyContainsIgnore, ih]

theorem entriesContainIgnore_eq_any (es : List (String × Ty)) :
    entriesContainIgnore es = es.any (·.2.containsIgnore) := by
  induction es with
  | nil => rfl
  | cons e es ih => simp [entriesContainIgnore, ih]

theorem atomsContainIgnore_eq_any (as : List (Atom Ty)) :
    atomsContainIgnore as = as.any atomContainsIgnore := by
  induction as with
  | nil => rfl
  | cons a as ih => simp [atomsContainIgnore, ih]

/-! ## Equality -/

mutual
def same : Ty → Ty → Bool
  | number v, number w => v == w
  | string v, string w => v == w
  | tuple v xs, tuple w ys => v == w && sameAll xs ys
  | record v xs, record w ys => v == w && sameEntries xs ys
  | function v ps r, function w qs s => v == w && sameAll ps qs && same r s
  | atom a, atom b => sameAtom a b
  | union v xs, union w ys => v == w && sameAtoms xs ys
  | placeholder v i, placeholder w j => v == w && i == j
  | empty, empty => true
  | ignore, ignore => true
  | _, _ => false
termination_by structural t => t
def sameAll : List Ty → List Ty → Bool
  | [], [] => true
  | x :: xs, y :: ys => same x y && sameAll xs ys
  | _, _ => false
termination_by structural xs => xs
def sameEntries : List (String × Ty) → List (String × Ty) → Bool
  | [], [] => true
  | (n, x) :: xs, (m, y) :: ys => n == m && same x y && sameEntries xs ys
  | _, _ => false
termination_by structural xs => xs
def sameAtom : Atom Ty → Atom Ty → Bool
  | ⟨n, xs, v⟩, ⟨m, ys, w⟩ => n == m && sameAll xs ys && v == w
termination_by structural a => a
def sameAtoms : List (Atom Ty) → List (Atom Ty) → Bool
  | [], [] => true
  | a :: as, b :: bs => sameAtom a b && sameAtoms as bs
  | _, _ => false
termination_by structural as => as
end

instance : BEq Ty := ⟨same⟩

end Ty

end ShapeCheck
