import ShapeCheck.Token

/-!
# Which token starts or continues what

A phrase starts with a token that has a start rule, and goes on as long as the next token binds
more tightly than the phrase around it.
-/

namespace ShapeCheck

inductive Power where
  | default
  | logical
  | call
  | member
  | primary
deriving Repr, DecidableEq

namespace Power

def rank : Power → Nat
  | default => 0
  | logical => 1
  | call => 2
  | member => 3
  | primary => 4

def name : Power → String
  | default => "Default"
  | logical => "Logical"
  | call => "Call"
  | member => "Member"
  | primary => "Primary"

def ofName? (name : String) : Option Power :=
  [default, logical, call, member, primary].find? (·.name = name)

end Power

/-! ## Statements -/

inductive StmtStart where
  | identifier
  | exported
  | block

def StmtStart.of? : TokenKind → Option StmtStart
  | .identifier => some .identifier
  | .exportWord => some .exported
  | .openCurly => some .block
  | _ => none

/-! ## Expressions -/

inductive ExprStart where
  | primary
  | tuple
  | record
  | atom
  | function
  | importFile

def ExprStart.of? : TokenKind → Option ExprStart
  | .number | .identifier | .string => some .primary
  | .openBracket => some .tuple
  | .openCurly | .percent => some .record
  | .atom => some .atom
  | .openParen => some .function
  | .importWord => some .importFile
  | _ => none

inductive ExprFollow where
  | call
  | access

def ExprFollow.of? : TokenKind → Option ExprFollow
  | .openParen => some .call
  | .dot => some .access
  | _ => none

def exprPower? : TokenKind → Option Power
  | .openParen => some .call
  | .dot => some .member
  | _ => none

/-! ## Types -/

inductive TypeStart where
  | symbol
  | tuple
  | record
  | function
  | atom

def TypeStart.of? : TokenKind → Option TypeStart
  | .identifier => some .symbol
  | .openBracket => some .tuple
  | .openCurly | .percent => some .record
  | .openParen => some .function
  | .atom => some .atom
  | _ => none

inductive TypeFollow where
  | union
  | access

def TypeFollow.of? : TokenKind → Option TypeFollow
  | .pipe => some .union
  | .dot => some .access
  | _ => none

def typePower? : TokenKind → Option Power
  | .pipe => some .logical
  | .dot => some .member
  | _ => none

end ShapeCheck
