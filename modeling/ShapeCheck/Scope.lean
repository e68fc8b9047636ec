import ShapeCheck.Ty.Basic

/-!
# Variables and scopes
-/

namespace ShapeCheck

structure Variable where
  name : String
  type : Ty

/-- The variables of a scope, latest declaration first. -/
abbrev Scope := List Variable

namespace Scope

def ofDeclarations (vs : List Variable) : Scope :=
  vs.reverse

def declarations (scope : Scope) : List Variable :=
  scope.reverse

def get? (name : String) (scope : Scope) : Option Variable :=
  scope.find? (·.name = name)

end Scope

end ShapeCheck
