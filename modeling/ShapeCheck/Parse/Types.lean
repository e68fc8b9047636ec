import ShapeCheck.Parse.Cursor
import ShapeCheck.Parse.Rules
import ShapeCheck.Tree

/-!
# Parsing types

The parsers of the single forms take the parser of the types inside them as an argument. `typeAt`
ties the knot: it counts the levels of nesting that are left.
-/

namespace ShapeCheck

open ParseM

namespace TypeExpr

def parseSymbol : ParseM TypeExpr := do
  let token ← expect .identifier
  return if token.value = "number" then .number token.span
    else if token.value = "string" then .string token.span
    else .name token.value token.span

section
variable (type : ParseM TypeExpr)

def parseTuple : ParseM TypeExpr := do
  let start := (← advance).span.start
  let items ← commaList .closeBracket fun _ => type
  return .tuple items (← spanFrom start)

def parseRecord : ParseM TypeExpr := do
  let start := (← get).position
  let entries ← ParseM.entries type
  return .record entries (← spanFrom start)

/-- A parameter may have a name, which is not kept. -/
def parseFunctionParameter : ParseM TypeExpr := do
  let c ← get
  if c.kind = .identifier ∧ c.peekKind 1 = .colon then
    let _ ← advance
    let _ ← advance
  type

def parseFunction : ParseM TypeExpr := do
  let start := (← advance).span.start
  let parameters ← commaList .closeParen fun _ => parseFunctionParameter type
  let result ← type
  return .function parameters result (← spanFrom start)

def parseAtomNode : ParseM (AtomNode TypeExpr) := do
  let token ← expectOr .atom "expected an atom"
  let arguments ← ParseM.arguments type
  return ⟨token.value, arguments, ← spanFrom token.span.start⟩

def parseAtom : ParseM TypeExpr := do
  return .atom (← parseAtomNode type)

/-- The atoms that `left | …` goes on from: only atoms can form a union. -/
def members? : TypeExpr → Option (List (AtomNode TypeExpr))
  | .atom a => some [a]
  | .union atoms _ => some atoms
  | _ => none

def parseUnion (left : TypeExpr) : ParseM TypeExpr := do
  match left.members? with
  | none => detailed "only atoms can form a union"
  | some atoms =>
    let _ ← advance
    let atom ← parseAtomNode type
    return .union (atoms ++ [atom]) (← spanFrom left.span.start)

def parseAccess (left : TypeExpr) : ParseM TypeExpr := do
  let entry ← entryName
  return .access left entry (← spanFrom left.span.start)

def parseStart : TypeStart → ParseM TypeExpr
  | .symbol => parseSymbol
  | .tuple => parseTuple type
  | .record => parseRecord type
  | .function => parseFunction type
  | .atom => parseAtom type

def parseFollow (left : TypeExpr) : TypeFollow → ParseM TypeExpr
  | .union => parseUnion type left
  | .access => parseAccess left

def parseFollows (power : Power) : Nat → TypeExpr → ParseM TypeExpr
  | 0, left => return left
  | n + 1, left => do
    let kind ← ParseM.kind
    if ((typePower? kind).getD .default).rank ≤ power.rank then return left
    match TypeFollow.of? kind with
    | none => unexpected
    | some rule => parseFollows power n (← parseFollow type left rule)

def parseBody (power : Power) : ParseM TypeExpr := do
  match TypeStart.of? (← kind) with
  | none => unexpected
  | some rule =>
    let left ← parseStart type rule
    parseFollows type power (← remaining) left

end

def parseAt : Nat → Power → ParseM TypeExpr
  | 0, _ => tooDeep
  | levels + 1, power => fun c => nested (parseBody (parseAt levels .default) power) c

def parse (power : Power) : ParseM TypeExpr := do
  let c ← get
  parseAt (c.limit - c.depth) power

end TypeExpr

end ShapeCheck
