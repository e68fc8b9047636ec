import ShapeCheck.Config
import ShapeCheck.Parse.Terms
import ShapeCheck.Token.Lexer

/-!
# Parsing programs
-/

namespace ShapeCheck

open ParseM

def Stmt.parseAll : ParseM (List Stmt) := do
  Stmt.parseUntil (← grammar) .eof (← remaining) []

/-- The root block of a file. It spans the text from its start up to the token that ends it. -/
def parseTokens (tokens : List Token) (file : String) (maxDepth : Nat) : Except Error Stmt :=
  match Stmt.parseAll (Cursor.ofTokens tokens file maxDepth) with
  | .ok body c => .ok (.block body ⟨.at 0 file, c.position⟩)
  | .error e _ => .error e

def parseSource (source file : String) (maxDepth : Nat) : Except Error Stmt := do
  let tokens ← tokenize source (some file)
  parseTokens tokens file maxDepth

end ShapeCheck
