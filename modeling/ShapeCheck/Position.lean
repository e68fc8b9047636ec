/-!
# Places in a source file
-/

namespace ShapeCheck

/-- A byte offset into a named source file. Offsets are 32 bits wide. -/
structure Position where
  offset : UInt32
  file : String
deriving Repr, DecidableEq, Inhabited

/-- The bytes from `start` up to, not including, `stop`. -/
structure Span where
  start : Position
  stop : Position
deriving Repr, DecidableEq, Inhabited

/-- Byte `offset` of `file`, modulo the width of an offset. -/
def Position.at (offset : Nat) (file : String) : Position :=
  ⟨offset.toUInt32, file⟩

def Span.between (start stop : Nat) (file : String) : Span :=
  ⟨.at start file, .at stop file⟩

end ShapeCheck
