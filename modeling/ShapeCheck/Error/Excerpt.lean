import ShapeCheck.Error
import ShapeCheck.Text.Lines
import ShapeCheck.Text.Space

/-!
# Errors shown with their line

    Error: UnknownIdentifier (`y` is not declared in any enclosing scope)
    -> main.lang
      |
    2 | x = y
      | ----^

The line is shown without the blanks and tabs it starts with and the white space it ends with.
-/

namespace ShapeCheck

open Text (LineAt lineAt trimEnd)

def isIndent (c : Char) : Bool :=
  c = ' ' || c = '\t'

namespace Text.LineAt

def indentation (line : LineAt) : Nat :=
  (line.text.takeWhile isIndent).length

def excerpt (line : LineAt) : List Char :=
  trimEnd (line.text.dropWhile isIndent)

def caret (line : LineAt) : List Char :=
  List.replicate (line.offset - line.indentation) '-' ++ ['^']

end Text.LineAt

/-- The bar left of the excerpt, below and above a line number of `digits` digits. -/
def margin (digits : Nat) : String :=
  String.ofList (List.replicate (digits + 1) ' ' ++ ['|'])

/-- The five lines that show the error in `content`, the text of `file`. -/
def Error.render (error : Error) (file content : String) : List String :=
  let line := lineAt content error.position.offset.toNat
  let number := Nat.repr line.number
  [error.cause.headline,
    "-> " ++ file,
    margin number.length,
    number ++ " | " ++ String.ofList line.excerpt,
    margin number.length ++ " " ++ String.ofList line.caret]

end ShapeCheck
