import ShapeCheck.Numeral
import ShapeCheck.Parse.Types

/-!
# Parsing expressions and statements

As with types, the parsers of the single forms are given the parsers of their parts, here as a
`Grammar`; `Expr.parseAt` and `Stmt.parseBlockAt` count the levels that are left.
-/

namespace ShapeCheck

open ParseM

/-- How to parse the parts of a phrase. -/
structure Grammar where
  expr : ParseM Expr
  type : ParseM TypeExpr
  block : ParseM Stmt

variable (g : Grammar)

/-! ## Expressions -/

namespace Expr

def parsePrimary : ParseM Expr := do
  let token := (← get).current
  match token.kind with
  | .number =>
    match Numeral.read? token.value with
    | none => throw ⟨.invalidNumber token.value, token.span.start⟩
    | some value =>
      let _ ← advance
      return .number value token.span
  | .identifier =>
    let _ ← advance
    return .name token.value token.span
  | .string =>
    let _ ← advance
    return .string token.value token.span
  | _ => unexpected

def parseList (closing : TokenKind) : ParseM (List Expr) :=
  commaList closing fun _ => g.expr

def parseTuple : ParseM Expr := do
  let start := (← advance).span.start
  let items ← parseList g .closeBracket
  return .tuple items (← spanFrom start)

def parseRecord : ParseM Expr := do
  let start := (← get).position
  let entries ← ParseM.entries g.expr
  return .record entries (← spanFrom start)

def parseAtom : ParseM Expr := do
  let token ← advance
  let arguments ← ParseM.arguments g.expr
  return .atom token.value arguments (← spanFrom token.span.start)

def parseParameter : ParseM Parameter := do
  let name ← expectOr .identifier "expected parameter name"
  let declared ← declaredType g.type
  return ⟨name.value, declared, ← spanFrom name.span.start⟩

def parseFunctionBody : ParseM Stmt := do
  if (← kind) = .openCurly then g.block else return .expr (← g.expr)

def parseFunction : ParseM Expr := do
  let start := (← advance).span.start
  let parameters ← commaList .closeParen fun _ => parseParameter g
  let body ← parseFunctionBody g
  return .function parameters body (← spanFrom start)

def parseImport : ParseM Expr := do
  let start := (← advance).span.start
  let _ ← expect .openParen
  let path ← expectOr .string "import expects a string literal path"
  let _ ← expect .closeParen
  return .importFile path.value (← spanFrom start)

def parseCall (left : Expr) : ParseM Expr := do
  let _ ← advance
  let arguments ← parseList g .closeParen
  return .call left arguments (← spanFrom left.span.start)

def parseAccess (left : Expr) : ParseM Expr := do
  let entry ← entryName
  return .access left entry (← spanFrom left.span.start)

def parseStart : ExprStart → ParseM Expr
  | .primary => parsePrimary
  | .tuple => parseTuple g
  | .record => parseRecord g
  | .atom => parseAtom g
  | .function => parseFunction g
  | .importFile => parseImport

def parseFollow (left : Expr) : ExprFollow → ParseM Expr
  | .call => parseCall g left
  | .access => parseAccess left

/-- Extends `left` by at most `n` tokens that bind more tightly than `power`. -/
def parseFollows (power : Power) : Nat → Expr → ParseM Expr
  | 0, left => return left
  | n + 1, left => do
    let kind ← ParseM.kind
    if ((exprPower? kind).getD .default).rank ≤ power.rank then return left
    match ExprFollow.of? kind with
    | none => unexpected
    | some rule => parseFollows power n (← parseFollow g left rule)

def parseBody (power : Power) : ParseM Expr := do
  match ExprStart.of? (← kind) with
  | none => unexpected
  | some rule =>
    let left ← parseStart g rule
    parseFollows g power (← remaining) left

end Expr

/-! ## Statements -/

namespace Stmt

def parseValue (declared : Bool) : ParseM (Option Expr) := do
  if (← kind) = .assignment then
    let _ ← advance
    return some (← g.expr)
  else if declared then
    return none
  else
    detailed "expected rhs or explicit type"

def parseAssignment : ParseM (Assignment Expr) := do
  let name ← expectOr .identifier "expected identifier during variable assignment"
  let declared ← declaredType g.type
  let value ← parseValue g declared.isSome
  return ⟨name.value, declared, value, ← spanFrom name.span.start⟩

def parseIdentifier : ParseM Stmt := do
  match (← get).peekKind 1 with
  | .colon | .assignment => return .assign (← parseAssignment g)
  | _ => return .expr (← g.expr)

def parseExport : ParseM Stmt := do
  let start := (← advance).span.start
  if (← kind) ≠ .identifier then detailed "expected variable assignment after export"
  let assignment ← parseAssignment g
  return .exported assignment (← spanFrom start)

def parseStart : StmtStart → ParseM Stmt
  | .identifier => parseIdentifier g
  | .exported => parseExport g
  | .block => g.block

/-- A statement, with the semicolon after it if there is one. -/
def parseOne : ParseM Stmt := do
  let stmt ← match StmtStart.of? (← kind) with
    | some rule => parseStart g rule
    | none => .expr <$> g.expr
  skip .semicolon
  return stmt

/-- At most `n` statements before `closing`, added to the earlier ones. -/
def parseUntil (closing : TokenKind) : Nat → List Stmt → ParseM (List Stmt)
  | 0, earlier => return earlier.reverse
  | n + 1, earlier => do
    if (← kind) = closing then return earlier.reverse
    if (← kind) = .eof then detailed "unclosed block"
    parseUntil closing n ((← parseOne g) :: earlier)

def parseBlockBody : ParseM Stmt := do
  let start := (← expect .openCurly).span.start
  let body ← parseUntil g .closeCurly (← remaining) []
  let _ ← expect .closeCurly
  return .block body (← spanFrom start)

end Stmt

/-! ## Nesting -/

mutual
def Expr.parseAt : Nat → Power → ParseM Expr
  | 0, _ => tooDeep
  | levels + 1, power => fun c =>
    nested (Expr.parseBody
      ⟨Expr.parseAt levels .default, TypeExpr.parseAt levels .default, Stmt.parseBlockAt levels⟩
      power) c
/-- A block with at most `levels` levels of nesting, its own included. -/
def Stmt.parseBlockAt : Nat → ParseM Stmt
  | 0 => tooDeep
  | levels + 1 => fun c =>
    nested (Stmt.parseBlockBody
      ⟨Expr.parseAt levels .default, TypeExpr.parseAt levels .default, Stmt.parseBlockAt levels⟩) c
end

def Grammar.ofLevels (levels : Nat) : Grammar :=
  ⟨Expr.parseAt levels .default, TypeExpr.parseAt levels .default, Stmt.parseBlockAt levels⟩

def grammar : ParseM Grammar := do
  let c ← get
  return .ofLevels (c.limit - c.depth)

def Expr.parse (power : Power) : ParseM Expr := do
  let c ← get
  Expr.parseAt (c.limit - c.depth) power

def Stmt.parseBlock : ParseM Stmt := do
  let c ← get
  Stmt.parseBlockAt (c.limit - c.depth)

def Stmt.parse : ParseM Stmt := do
  Stmt.parseOne (← grammar)

end ShapeCheck
