import ShapeCheck.Scope

/-!
# The variables that every program sees

`Boolean` is only a type; the others are functions.
-/

namespace ShapeCheck.Prelude

def boolean (hasValue : Bool) : Ty :=
  .union hasValue [⟨"true", [], false⟩, ⟨"false", [], false⟩]

def function (parameters : List Ty) (result : Ty) : Ty :=
  .function true parameters (result.withValue true)

def globals : List Variable :=
  let number := Ty.number false
  let string := Ty.string false
  [⟨"Boolean", boolean false⟩,
    ⟨"not", function [boolean false] (boolean true)⟩,
    ⟨"equals", function [number, number] (boolean true)⟩,
    ⟨"numberToString", function [number] string⟩,
    ⟨"concat", function [string, string] string⟩]

end ShapeCheck.Prelude
