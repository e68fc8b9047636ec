import ShapeCheck.Context
import ShapeCheck.Ty.Placeholder

/-!
# The trail of a run

What happens to the contexts of the checked files, moment by moment.
-/

namespace ShapeCheck

inductive Event where
  | started
  /-- A parameter got this placeholder. -/
  | allocated (placeholder : Ty)
  /-- A call settled what placeholders stand for. -/
  | settled (σ : Ty.Substitution)
  /-- An import brought these variables. -/
  | imported (exports : List Variable)
  /-- A declared type made this the type of a variable. -/
  | annotated (type : Ty)
  /-- An entry of a record expression was found to have this type. -/
  | filled (entry : String) (type : Ty)
  /-- An entry of this type was read out of a phrase of type `accessed`. -/
  | read (accessed : Ty) (entry : String) (type : Ty)
  /-- Anything else. -/
  | changed
  /-- A phrase was found to have this type. -/
  | typed (type : Ty)

structure Moment where
  event : Event
  context : Context

end ShapeCheck
