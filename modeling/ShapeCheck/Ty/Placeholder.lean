import ShapeCheck.Ty.Basic

/-!
# Placeholders

A placeholder is replaced once it is known what it stands for, and renumbered when a type moves
into a file with placeholders of its own.
-/

namespace ShapeCheck.Ty

/-! ## Substitution -/

section
variable (id : Nat) (replacement : Ty)

mutual
/-- The type with every placeholder `id` replaced. The replacement takes over the mark of the
placeholder. -/
def substitute : Ty → Ty
  | placeholder v i => if i = id then replacement.withValue v else placeholder v i
  | tuple v items => tuple v (substituteEach items)
  | record v entries => record v (substituteEntries entries)
  | function v parameters result =>
    function v (substituteEach parameters) (substitute result)
  | atom a => atom (substituteAtom a)
  | union v atoms => union v (substituteAtoms atoms)
  | number v => number v
  | string v => string v
  | empty => empty
  | ignore => ignore
def substituteEach : List Ty → List Ty
  | [] => []
  | t :: ts => substitute t :: substituteEach ts
def substituteEntries : List (String × Ty) → List (String × Ty)
  | [] => []
  | (name, t) :: es => (name, substitute t) :: substituteEntries es
def substituteAtom : Atom Ty → Atom Ty
  | ⟨name, arguments, v⟩ => ⟨name, substituteEach arguments, v⟩
def substituteAtoms : List (Atom Ty) → List (Atom Ty)
  | [] => []
  | a :: as => substituteAtom a :: substituteAtoms as
end

end

theorem substituteEach_eq_map (id : Nat) (replacement : Ty) (ts : List Ty) :
    substituteEach id replacement ts = ts.map (substitute id replacement) := by
  induction ts with
  | nil => rfl
  | cons t ts ih => simp [substituteEach, ih]

theorem substituteEntries_eq_map (id : Nat) (replacement : Ty) (es : List (String × Ty)) :
    substituteEntries id replacement es =
      es.map fun e => (e.1, substitute id replacement e.2) := by
  induction es with
  | nil => rfl
  | cons e es ih => simp [substituteEntries, ih]

theorem substituteAtoms_eq_map (id : Nat) (replacement : Ty) (as : List (Atom Ty)) :
    substituteAtoms id replacement as = as.map (substituteAtom id replacement) := by
  induction as with
  | nil => rfl
  | cons a as ih => simp [substituteAtoms, ih]

/-- One step says which placeholder is replaced and by what. -/
abbrev Substitution := List (Nat × Ty)

def apply (σ : Substitution) (t : Ty) : Ty :=
  σ.foldl (fun t s => substitute s.1 s.2 t) t

/-! ## Renumbering -/

/-- New numbers for the placeholders met so far, and the next free one. -/
structure Renaming where
  next : Nat
  renamed : List (Nat × Nat)

/-- The new number of `id`: the one it already has, or the next free one. -/
def Renaming.rename (id : Nat) (ρ : Renaming) : Nat × Renaming :=
  match ρ.renamed.lookup id with
  | some n => (n, ρ)
  | none => (ρ.next, ⟨ρ.next + 1, (id, ρ.next) :: ρ.renamed⟩)

mutual
/-- Renumbers the placeholders in the order in which they first occur. -/
def renumber : Ty → Renaming → Ty × Renaming
  | placeholder v id, ρ =>
    let (n, ρ) := ρ.rename id
    (placeholder v n, ρ)
  | tuple v items, ρ =>
    let (items, ρ) := renumberEach items ρ
    (tuple v items, ρ)
  | record v entries, ρ =>
    let (entries, ρ) := renumberEntries entries ρ
    (record v entries, ρ)
  | function v parameters result, ρ =>
    let (parameters, ρ) := renumberEach parameters ρ
    let (result, ρ) := renumber result ρ
    (function v parameters result, ρ)
  | atom a, ρ =>
    let (a, ρ) := renumberAtom a ρ
    (atom a, ρ)
  | union v atoms, ρ =>
    let (atoms, ρ) := renumberAtoms atoms ρ
    (union v atoms, ρ)
  | number v, ρ => (number v, ρ)
  | string v, ρ => (string v, ρ)
  | empty, ρ => (empty, ρ)
  | ignore, ρ => (ignore, ρ)
def renumberEach : List Ty → Renaming → List Ty × Renaming
  | [], ρ => ([], ρ)
  | t :: ts, ρ =>
    let (t, ρ) := renumber t ρ
    let (ts, ρ) := renumberEach ts ρ
    (t :: ts, ρ)
def renumberEntries : List (String × Ty) → Renaming → List (String × Ty) × Renaming
  | [], ρ => ([], ρ)
  | (name, t) :: es, ρ =>
    let (t, ρ) := renumber t ρ
    let (es, ρ) := renumberEntries es ρ
    ((name, t) :: es, ρ)
def renumberAtom : Atom Ty → Renaming → Atom Ty × Renaming
  | ⟨name, arguments, v⟩, ρ =>
    let (arguments, ρ) := renumberEach arguments ρ
    (⟨name, arguments, v⟩, ρ)
def renumberAtoms : List (Atom Ty) → Renaming → List (Atom Ty) × Renaming
  | [], ρ => ([], ρ)
  | a :: as, ρ =>
    let (a, ρ) := renumberAtom a ρ
    let (as, ρ) := renumberAtoms as ρ
    (a :: as, ρ)
end

end ShapeCheck.Ty
