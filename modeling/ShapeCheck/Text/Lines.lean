import ShapeCheck.Text.Bytes

/-!
# The line at a position

A line reaches up to and including its newline; the last one may lack it.
-/

namespace ShapeCheck.Text

structure LineAt where
  number : Nat
  text : List Char
  offset : Nat
deriving Repr, DecidableEq

/-- The lines of a text, each with its newline. -/
def lines : List Char → List (List Char)
  | [] => []
  | c :: cs =>
    if c = '\n' then [c] :: lines cs
    else match lines cs with
      | [] => [[c]]
      | l :: ls => (c :: l) :: ls

def chomp (line : List Char) : List Char :=
  (line.reverse.dropWhile (· = '\n')).reverse

/-- The line of `ls` that holds byte `position`, where `number` counts the first of `ls`.
`last` answers when no line holds it. -/
def findLine (position number : Nat) (last : LineAt) : List (List Char) → LineAt
  | [] => last
  | l :: ls =>
    if position < byteLength l then ⟨number, l, position⟩
    else findLine (position - byteLength l) (number + 1)
      ⟨number, l, byteLength (chomp l)⟩ ls

/-- The line that holds byte `position` of the text. A position past the end is at the end of the
last line. -/
def lineAt (text : String) (position : Nat) : LineAt :=
  findLine position 1 ⟨1, [], 0⟩ (lines text.toList)

end ShapeCheck.Text
