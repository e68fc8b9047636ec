/-!
# Characters of words and numerals

Words and numerals are written in ASCII.
-/

namespace ShapeCheck.Text

def isLetter (c : Char) : Bool :=
  ('a' ≤ c ∧ c ≤ 'z') ∨ ('A' ≤ c ∧ c ≤ 'Z') ∨ c = '_'

def isDigit (c : Char) : Bool :=
  '0' ≤ c ∧ c ≤ '9'

def isWordChar (c : Char) : Bool :=
  isLetter c || isDigit c

end ShapeCheck.Text
