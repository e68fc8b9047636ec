import ShapeCheck.Check.Basic

/-!
# Checking type expressions

A type expression describes a type, so what it yields has no value. A name stands for the type of
its variable as it is.
-/

namespace ShapeCheck

open CheckM

mutual
def TypeExpr.check : TypeExpr → CheckM Ty
  | .name x span => nested span (checkName x span)
  | .number span => nested span do return .number false
  | .string span => nested span do return .string false
  | .tuple items span => nested span do return .tuple false (← TypeExpr.checkEach items)
  | .record entries span => nested span do
    return .record false (Entries.ofList (← TypeExpr.checkEntries entries))
  | .access t entry span => nested span do
    let accessed ← TypeExpr.check t
    checkAccess accessed entry span
  | .function parameters result span => nested span do
    let parameters ← TypeExpr.checkEach parameters
    let result ← TypeExpr.check result
    return .function result.hasValue parameters result
  | .atom a => nested a.span do return .atom (← TypeExpr.checkAtom a)
  | .union atoms span => nested span do return .union false (← TypeExpr.checkAtoms atoms)
termination_by structural t => t
def TypeExpr.checkEach : List TypeExpr → CheckM (List Ty)
  | [] => return []
  | t :: ts => do
    let type ← TypeExpr.check t
    return type :: (← TypeExpr.checkEach ts)
termination_by structural ts => ts
def TypeExpr.checkEntries : List (String × TypeExpr) → CheckM (List (String × Ty))
  | [] => return []
  | (x, t) :: es => do
    let type ← TypeExpr.check t
    return (x, type) :: (← TypeExpr.checkEntries es)
termination_by structural es => es
def TypeExpr.checkAtom : AtomNode TypeExpr → CheckM (Atom Ty)
  | ⟨x, arguments, _⟩ => do
    let arguments ← TypeExpr.checkEach arguments
    return ⟨x, arguments, false⟩
termination_by structural a => a
def TypeExpr.checkAtoms : List (AtomNode TypeExpr) → CheckM (List (Atom Ty))
  | [] => return []
  | a :: as => do
    let type ← TypeExpr.checkAtom a
    return type :: (← TypeExpr.checkAtoms as)
termination_by structural as => as
end

def TypeExpr.checkOptional : Option TypeExpr → CheckM (Option Ty)
  | none => return none
  | some t => do return some (← t.check)

end ShapeCheck
