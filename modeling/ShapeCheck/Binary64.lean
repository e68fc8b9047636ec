/-!
# Binary64 numbers

A number of the binary64 format is kept by its bits. So the two zeros differ, as do the two signs
of what is not a number.
-/

namespace ShapeCheck

structure Binary64 where
  bits : UInt64
deriving Repr, DecidableEq

namespace Binary64

def zero : Binary64 := ⟨0⟩

def infinity : Binary64 := ⟨0x7ff0000000000000⟩

def nan : Binary64 := ⟨0x7ff8000000000000⟩

/-- Turns the sign, also that of a zero or of what is not a number. -/
def negate (x : Binary64) : Binary64 :=
  ⟨x.bits ^^^ 0x8000000000000000⟩

@[simp] theorem negate_negate (x : Binary64) : x.negate.negate = x := by
  simp only [negate, UInt64.xor_assoc, UInt64.xor_self, UInt64.xor_zero]

end Binary64

end ShapeCheck
