import ShapeCheck.Position

/-!
# Tokens
-/

namespace ShapeCheck

inductive TokenKind where
  | eof
  | number
  | string
  | identifier
  | atom
  | openBracket
  | closeBracket
  | openCurly
  | closeCurly
  | openParen
  | closeParen
  | assignment
  | pipe
  | percent
  | dot
  | semicolon
  | colon
  | comma
  | importWord
  | exportWord
deriving Repr, DecidableEq, Inhabited

namespace TokenKind

def all : List TokenKind :=
  [eof, number, string, identifier, atom, openBracket, closeBracket, openCurly, closeCurly,
    openParen, closeParen, assignment, pipe, percent, dot, semicolon, colon, comma, importWord,
    exportWord]

def name : TokenKind → String
  | eof => "EOF"
  | number => "Number"
  | string => "String"
  | identifier => "Identifier"
  | atom => "Atom"
  | openBracket => "OpenBracket"
  | closeBracket => "CloseBracket"
  | openCurly => "OpenCurly"
  | closeCurly => "CloseCurly"
  | openParen => "OpenParen"
  | closeParen => "CloseParen"
  | assignment => "Assignment"
  | pipe => "Pipe"
  | percent => "Percent"
  | dot => "Dot"
  | semicolon => "Semicolon"
  | colon => "Colon"
  | comma => "Comma"
  | importWord => "Import"
  | exportWord => "Export"

def ofName? (name : String) : Option TokenKind :=
  all.find? (·.name = name)

end TokenKind

/-- `value` is the text of the token, without the `@` of an atom and decoded for a string. -/
structure Token where
  kind : TokenKind
  value : String
  span : Span
deriving Repr, DecidableEq, Inhabited

namespace Token

def eof (position : Position) : Token :=
  ⟨.eof, "EOF", ⟨position, position⟩⟩

def render (token : Token) : String :=
  "Token \x7b\nkind: " ++ token.kind.name ++ ",\nvalue: " ++ token.value ++ "\x7d"

end Token

end ShapeCheck
